import NetworkUtility.EtcpClient.Init

/-! The overloads of `WebsocketClient::init` and the first half of `WebsocketSession::init`: which class
of session is created and which URL it dials. The strings are C strings. -/
namespace NetworkUtility.WebsocketClient

open EtcpClient (portText)
open Tcp (ascii)

/-- `WebsocketSessionPlain` or `WebsocketSessionSecure`. -/
inductive SessionKind
  | plain
  | secure
  deriving DecidableEq, Repr

/-- `m_target_url` and `m_gateway_url`. The second is passed to `get_connection`; the first is the
`Origin` when the two differ. -/
structure Urls where
  targetUrl : Bytes
  gatewayUrl : Bytes
  deriving DecidableEq, Repr

/-- `strncmp(url, "wss", 3)` is zero. -/
def startsWss (url : Bytes) : Bool := [119, 115, 115].isPrefixOf url

/-- `WebsocketSession::init`; the threads start or do not. -/
def sessionInit (started : Bool) (targetUrl gatewayUrl : Bytes) : Option Urls :=
  if targetUrl.length < 2 then none
  else if started then
    if gatewayUrl = [] ∨ targetUrl = gatewayUrl then some ⟨targetUrl, targetUrl⟩
    else if targetUrl.take 2 = ascii "ws" then
      some ⟨ascii "http" ++ targetUrl.drop 2, gatewayUrl⟩
    else some ⟨targetUrl, gatewayUrl⟩
  else none

/-- `init` with two URLs, either of which may be null. Nothing when it fails. -/
def initUrls (started : Bool) (targetUrl gatewayUrl : Option Bytes) : Option (SessionKind × Urls) :=
  let target := targetUrl.getD []
  let gateway := gatewayUrl.getD []
  if target = [] ∧ gateway = [] then none
  else
    let first := if target = [] then gateway else target
    let second := if target = [] then target else gateway
    let kind := if startsWss first then SessionKind.secure else .plain
    (sessionInit started first second).map fun urls => (kind, urls)

/-- The URL of a host and a port, if both are given. -/
def hostUrl (host : Option Bytes) (port : UInt16) (secure : Bool) : Bytes :=
  if host.getD [] ≠ [] ∧ port ≠ 0 then
    ascii (if secure then "wss://" else "ws://") ++ host.getD [] ++ ascii ":" ++ portText port
  else []

/-- The arguments of the overloads but the sink. -/
inductive Arguments
  | url (target : Option Bytes)
  | urls (target gateway : Option Bytes)
  | host (target : Option Bytes) (port : UInt16) (secure : Bool)
  | hosts (targetHost : Option Bytes) (targetPort : UInt16) (targetSecure : Bool)
      (gatewayHost : Option Bytes) (gatewayPort : UInt16) (gatewaySecure : Bool)
      (connectData : Option Bytes)
  deriving DecidableEq, Repr

namespace Arguments

/-- `target_url` of the overload with two URLs. -/
def targetUrl : Arguments → Option Bytes
  | url target | urls target _ => target
  | host target port secure | hosts target port secure .. => some (hostUrl target port secure)

/-- `gateway_url` of the overload with two URLs. -/
def gatewayUrl : Arguments → Option Bytes
  | url _ | host .. => some []
  | urls _ gateway => gateway
  | hosts target targetPort targetSecure gateway port secure connectData =>
    if hostUrl gateway port secure ≠ [] ∧ hostUrl target targetPort targetSecure = [] ∧
        connectData.getD [] ≠ [] then
      some (hostUrl gateway port secure ++ ascii "/?token=" ++ connectData.getD [])
    else some (hostUrl gateway port secure)

end Arguments

def init (started : Bool) (a : Arguments) : Option (SessionKind × Urls) :=
  initUrls started a.targetUrl a.gatewayUrl

/-- If `init` succeeds, the session is the secure one just when the dialled URL is. -/
def KindMatches (result : Option (SessionKind × Urls)) : Prop :=
  ∀ kind urls, result = some (kind, urls) → (kind = .secure ↔ startsWss urls.gatewayUrl)

/-- One URL is missing, the two agree about `wss`, or `init` fails. -/
def Agree (started : Bool) (target gateway : Bytes) : Prop :=
  target = [] ∨ gateway = [] ∨ startsWss target = startsWss gateway ∨ target.length < 2 ∨
    started = false

instance (started : Bool) (target gateway : Bytes) : Decidable (Agree started target gateway) :=
  inferInstanceAs (Decidable (_ ∨ _))

variable {started : Bool} {target gateway : Bytes} {urls : Urls} {host : Option Bytes} {port : UInt16}

/-- The gateway is dialled if there is one. -/
theorem gatewayUrl_of_sessionInit (h : sessionInit started target gateway = some urls) :
    urls.gatewayUrl = if gateway = [] then target else gateway := by
  unfold sessionInit at h
  split_ifs at h with hshort hstarted hsame hws
  · obtain rfl := Option.some.inj h
    rcases hsame with hnil | heq
    · rw [if_pos hnil]
    · simp [heq]
  · obtain rfl := Option.some.inj h
    rw [if_neg (not_or.mp hsame).1]
  · obtain rfl := Option.some.inj h
    rw [if_neg (not_or.mp hsame).1]

theorem sessionInit_isSome :
    (sessionInit started target gateway).isSome ↔ 2 ≤ target.length ∧ started = true := by
  unfold sessionInit
  split_ifs with hshort hstarted hsame hws
  · simp; omega
  · simp [hstarted]; omega
  · simp [hstarted]; omega
  · simp [hstarted]; omega
  · simp [hstarted]

theorem startsWss_hostUrl {secure : Bool} (h : hostUrl host port secure ≠ []) :
    startsWss (hostUrl host port secure) = secure := by
  unfold hostUrl at h ⊢
  by_cases hgiven : host.getD [] ≠ [] ∧ port ≠ 0
  · rw [if_pos hgiven]
    cases secure <;> rfl
  · exact absurd (if_neg hgiven) h

def kindOf (target : Bytes) : SessionKind := if startsWss target then .secure else .plain

theorem kindOf_eq : kindOf target = .secure ↔ startsWss target = true := by
  unfold kindOf
  split_ifs with h <;> simp [h]

/-- The kind is the target's, and the dialled URL is the gateway's. -/
theorem kindMatches_session :
    KindMatches ((sessionInit started target gateway).map fun urls => (kindOf target, urls)) ↔
      gateway = [] ∨ startsWss target = startsWss gateway ∨ target.length < 2 ∨ started = false := by
  constructor
  · intro h
    by_cases hfails : target.length < 2 ∨ started = false
    · exact .inr (.inr hfails)
    obtain ⟨hlong, hstarted⟩ := not_or.mp hfails
    have hsome : (sessionInit started target gateway).isSome :=
      sessionInit_isSome.mpr ⟨Nat.le_of_not_lt hlong, by simpa using hstarted⟩
    obtain ⟨urls, hurls⟩ := Option.isSome_iff_exists.mp hsome
    have hkind := h _ urls (by rw [hurls]; rfl)
    rw [kindOf_eq, gatewayUrl_of_sessionInit hurls] at hkind
    by_cases hgateway : gateway = []
    · exact .inl hgateway
    · rw [if_neg hgateway] at hkind
      exact .inr (.inl (Bool.eq_iff_iff.mpr hkind))
  · intro h kind urls hinit
    obtain ⟨urls', hurls, heq⟩ := Option.map_eq_some_iff.mp hinit
    obtain ⟨rfl, rfl⟩ := Prod.mk.inj heq
    have hsome := sessionInit_isSome.mp (Option.isSome_of_eq_some hurls)
    rw [kindOf_eq, gatewayUrl_of_sessionInit hurls]
    rcases h with hgateway | hsame | hshort | hstarted
    · rw [if_pos hgateway]
    · split_ifs
      · rfl
      · rw [hsame]
    · omega
    · rw [hstarted] at hsome
      exact absurd hsome.2 (by decide)

theorem kindMatches_initUrls (targetUrl gatewayUrl : Option Bytes) :
    KindMatches (initUrls started targetUrl gatewayUrl) ↔
      Agree started (targetUrl.getD []) (gatewayUrl.getD []) := by
  generalize htarget : targetUrl.getD [] = target
  generalize hgateway : gatewayUrl.getD [] = gateway
  simp only [initUrls, htarget, hgateway, Agree]
  by_cases hnone : target = [] ∧ gateway = []
  · rw [if_pos hnone]
    exact iff_of_true nofun (.inl hnone.1)
  rw [if_neg hnone]
  by_cases hempty : target = []
  · -- the gateway is swapped into the place of the target and has no gateway itself
    rw [if_pos hempty, if_pos hempty]
    exact iff_of_true (kindMatches_session.mpr (.inl hempty)) (.inl hempty)
  · rw [if_neg hempty, if_neg hempty]
    refine kindMatches_session.trans (Iff.symm ?_)
    exact or_iff_right hempty

/-- The kind of the session is that of the dialled URL just when the two URLs agree, or one of them is
missing, or nothing is dialled. -/
theorem kindMatches_iff_agree (started : Bool) (a : Arguments) :
    KindMatches (init started a) ↔
      Agree started (a.targetUrl.getD []) (a.gatewayUrl.getD []) :=
  kindMatches_initUrls a.targetUrl a.gatewayUrl

theorem length_hostUrl {secure : Bool} (h : hostUrl host port secure ≠ []) :
    2 ≤ (hostUrl host port secure).length := by
  unfold hostUrl at h ⊢
  by_cases hgiven : host.getD [] ≠ [] ∧ port ≠ 0
  · rw [if_pos hgiven]
    cases secure <;> simp [ascii]
  · exact absurd (if_neg hgiven) h

/-- For two hosts that are both given the flags decide. -/
theorem kindMatches_hosts {gatewayHost data : Option Bytes} {gatewayPort : UInt16}
    {secure gatewaySecure : Bool}
    (htarget : hostUrl host port secure ≠ [])
    (hgateway : hostUrl gatewayHost gatewayPort gatewaySecure ≠ []) :
    KindMatches (init started (.hosts host port secure gatewayHost gatewayPort gatewaySecure data)) ↔
      secure = gatewaySecure ∨ started = false := by
  have hshort := Nat.not_lt_of_le (length_hostUrl htarget)
  rw [init, kindMatches_initUrls]
  simp only [Arguments.targetUrl, Arguments.gatewayUrl, htarget, false_and, and_false, if_false,
    Option.getD_some, Agree, hgateway, startsWss_hostUrl htarget, startsWss_hostUrl hgateway, hshort,
    false_or]

/-- A plain session dials the `wss` gateway of a `ws` target. -/
theorem plain_session_dials_wss : ¬ ∀ a, KindMatches (init true a) := by
  intro h
  have hkind := h (.hosts (some [97]) 80 false (some [98]) 443 true none) .plain
    ⟨ascii "http://a:80", ascii "wss://b:443"⟩ (by decide)
  exact absurd (hkind.mpr (by decide)) (by decide)

end NetworkUtility.WebsocketClient
