import NetworkUtility.Base.ByteOrder
import NetworkUtility.Lib.Search

/-! `HttpClient::parse`, which the overloads of `get` and `post` with a URL go through. -/
namespace NetworkUtility.HttpClient

open Search

/-- `"://"` -/
def mark : Bytes := [58, 47, 47]

/-- `scheme` and `target`. -/
def parse (url : Bytes) : Bytes × Bytes :=
  let pos := match searchFrom mark url 0 with
    | some pos => pos + 3
    | none => 0
  match searchFrom [47] url pos with
  | some pos => (url.take pos, url.drop pos)
  | none => (url, [47])

/-- None of `/`, `?` and `#`. -/
def Plain (bs : Bytes) : Prop := 47 ∉ bs ∧ 63 ∉ bs ∧ 35 ∉ bs

instance (bs : Bytes) : Decidable (Plain bs) := inferInstanceAs (Decidable (_ ∧ _))

/-- `[proto://]authority[/path][?query][#fragment]`; the path has its slash. -/
structure Url where
  proto : Option Bytes
  authority : Bytes
  path : Bytes
  query : Option Bytes
  fragment : Option Bytes
  proto_plain : ∀ bs ∈ proto, Plain bs ∧ 58 ∉ bs
  authority_plain : Plain authority
  path_rooted : path = [] ∨ path.head? = some 47
  path_plain : 63 ∉ path ∧ 35 ∉ path
  query_plain : ∀ bs ∈ query, 35 ∉ bs

namespace Url

def scheme (u : Url) : Bytes :=
  match u.proto with
  | some proto => proto ++ (mark ++ u.authority)
  | none => u.authority

/-- Path, query and fragment. -/
def rest (u : Url) : Bytes :=
  u.path ++ ((u.query.elim [] fun bs => 63 :: bs) ++ u.fragment.elim [] fun bs => 35 :: bs)

def text (u : Url) : Bytes := u.scheme ++ u.rest

/-- The rest, with a slash in front if it does not start with one. -/
def target (u : Url) : Bytes := if u.rest.head? = some 47 then u.rest else 47 :: u.rest

/-- Nothing behind the authority; or a path, and no mark that is taken for the one of the URL. -/
def Splits (u : Url) : Prop :=
  u.rest = [] ∨ u.path ≠ [] ∧ (u.proto.isSome ∨ ¬ mark <:+: u.text)

end Url

variable {u : Url} {url front rest : Bytes} {pos n : Nat}

/-- The offset from which the slash is looked for. -/
def start (url : Bytes) : Nat := (search mark url).elim 0 (· + 3)

theorem parse_eq (url : Bytes) : parse url =
    (searchFrom [47] url (start url)).elim (url, [47]) fun pos => (url.take pos, url.drop pos) := by
  have hzero : searchFrom mark url 0 = search mark url := by simp [searchFrom]
  unfold parse start
  rw [hzero]
  cases search mark url with
  | none =>
    simp only [Option.elim_none]
    cases searchFrom [47] url 0 <;> rfl
  | some pos =>
    simp only [Option.elim_some]
    cases searchFrom [47] url (pos + 3) <;> rfl

theorem searchFrom_slash (hle : n ≤ front.length) (h : 47 ∉ front.drop n) :
    searchFrom [47] (front ++ 47 :: rest) n = some front.length := by
  have hslash : search [47] (47 :: rest) = some 0 := search_prefix (List.prefix_append [47] rest)
  rw [searchFrom, List.drop_append_of_le_length hle, search_append h, hslash, List.length_drop]
  simp only [Option.map_some]
  congr 1
  omega

/-- Where a slash has been found. -/
theorem slash_of_searchFrom (h : searchFrom [47] url n = some pos) :
    n ≤ pos ∧ (url.drop pos).head? = some 47 := by
  obtain ⟨i, hi, rfl⟩ := Option.map_eq_some_iff.mp h
  obtain ⟨more, hmore⟩ := prefix_of_search hi
  rw [List.drop_drop] at hmore
  exact ⟨Nat.le_add_right .., by rw [← hmore]; rfl⟩

namespace Url

/-- The slash is looked for behind the mark of the URL. -/
theorem start_text (h : u.proto.isSome ∨ ¬ mark <:+: u.text) :
    start u.text ≤ u.scheme.length ∧ 47 ∉ u.scheme.drop (start u.text) := by
  have hplain := u.authority_plain.1
  cases hproto : u.proto with
  | none =>
    have hnone := search_eq_none.mpr (h.resolve_left (by simp [hproto]))
    simpa [start, hnone, scheme, hproto] using hplain
  | some proto =>
    have hcolon := (u.proto_plain proto hproto).2
    have hscheme : u.scheme = proto ++ (mark ++ u.authority) := by simp [scheme, hproto]
    have hsearch : search mark u.text = some proto.length := by
      rw [text, hscheme, List.append_assoc, List.append_assoc, mark, search_append hcolon,
        search_prefix (List.prefix_append ..)]
      rfl
    have hstart : start u.text = proto.length + 3 := by simp [start, hsearch]
    have hdrop : u.scheme.drop (proto.length + 3) = u.authority := by
      rw [hscheme, ← List.drop_drop, List.drop_left' rfl]
      rfl
    rw [hstart, hdrop]
    refine ⟨?_, hplain⟩
    simp [hscheme, mark]

/-- Without a protocol the authority is passed over if the search for the mark succeeds. -/
theorem scheme_lt_start (hproto : u.proto = none) (h : mark <:+: u.text) :
    u.scheme.length < start u.text := by
  have hplain := u.authority_plain.1
  have hscheme : u.scheme = u.authority := by simp [scheme, hproto]
  cases hsearch : search mark u.text with
  | none => exact absurd h (search_eq_none.mp hsearch)
  | some i =>
    have hpre := prefix_of_search hsearch
    have hstart : start u.text = i + 3 := by simp [start, hsearch]
    rw [hstart, hscheme]
    by_contra hlt
    -- the slashes of the mark would be in the authority
    obtain ⟨more, hmore⟩ := hpre
    have hslash : u.text[i + 1]? = some 47 := by
      rw [← List.getElem?_drop, ← hmore]
      rfl
    rw [text, hscheme, List.getElem?_append_left (by omega)] at hslash
    exact hplain (List.mem_of_getElem? hslash)

theorem head_rest : u.rest.head? = some 47 ↔ u.path ≠ [] := by
  rcases u.path_rooted with hpath | hpath
  · refine iff_of_false (fun hhead => ?_) (by simp [hpath])
    rw [rest, hpath, List.nil_append] at hhead
    cases hq : u.query with
    | some query => simp [hq] at hhead
    | none =>
      cases hf : u.fragment with
      | some fragment => simp [hq, hf] at hhead
      | none => simp [hq, hf] at hhead
  · obtain ⟨more, hmore⟩ := List.head?_eq_some_iff.mp hpath
    exact iff_of_true (by simp [rest, hmore]) (by simp [hmore])

theorem parse_of_splits (h : u.Splits) : parse u.text = (u.scheme, u.target) := by
  rcases h with hrest | ⟨hpath, hmark⟩
  · have htext : u.text = u.scheme := by simp [text, hrest]
    have hmark : u.proto.isSome ∨ ¬ mark <:+: u.text := by
      cases hproto : u.proto with
      | some proto => exact .inl rfl
      | none =>
        refine .inr fun hinf => u.authority_plain.1 ?_
        rw [htext, scheme, hproto] at hinf
        exact hinf.subset (by decide)
    obtain ⟨-, hslash⟩ := start_text hmark
    rw [parse_eq, searchFrom, htext, search_of_notMem (htext ▸ hslash)]
    simp [target, hrest]
  · obtain ⟨hle, hslash⟩ := start_text hmark
    obtain ⟨more, hmore⟩ := List.head?_eq_some_iff.mp (head_rest.mpr hpath)
    have htarget : u.target = 47 :: more := by simp [target, hmore]
    have htext : u.text = u.scheme ++ 47 :: more := by rw [text, hmore]
    rw [parse_eq, htarget]
    rw [htext] at hle hslash ⊢
    rw [searchFrom_slash hle hslash]
    simp

theorem splits_of_parse (h : parse u.text = (u.scheme, u.target)) : u.Splits := by
  by_cases hrest : u.rest = []
  · exact .inl hrest
  have hlt : u.scheme.length < u.text.length := by
    have := List.length_pos_iff.mpr hrest
    simp [text, this]
  rw [parse_eq] at h
  cases hfound : searchFrom [47] u.text (start u.text) with
  | none =>
    rw [hfound] at h
    have := congrArg List.length (congrArg Prod.fst h)
    simp only [Option.elim_none] at this
    omega
  | some pos =>
    rw [hfound] at h
    obtain ⟨hle, hhead⟩ := slash_of_searchFrom hfound
    have hscheme : u.text.take pos = u.scheme := congrArg Prod.fst h
    have hpos : pos = u.scheme.length := by
      have := congrArg List.length hscheme
      rw [List.length_take] at this
      omega
    have hpath : u.path ≠ [] := by
      rw [hpos, text, List.drop_left' rfl] at hhead
      exact head_rest.mp hhead
    refine .inr ⟨hpath, ?_⟩
    cases hproto : u.proto with
    | some proto => exact .inl rfl
    | none =>
      refine .inr fun hmark => ?_
      have := scheme_lt_start hproto hmark
      omega

end Url

/-- A URL is split as its grammar says unless a query or a fragment follows the authority, or the
first `://` of a URL without a protocol is in its rest. -/
theorem parse_iff_splits (u : Url) : parse u.text = (u.scheme, u.target) ↔ u.Splits :=
  ⟨Url.splits_of_parse, Url.parse_of_splits⟩

/-- `h?/x`: the slash of the query is taken for that of the path. -/
theorem query_moves_split : ¬ ∀ u : Url, parse u.text = (u.scheme, u.target) := by
  intro h
  have hsplit := h ⟨none, [104], [], some [47, 120], none, nofun, by decide, .inl rfl, by decide,
    fun bs hbs => Option.some.inj hbs ▸ by decide⟩
  exact absurd hsplit (by decide)

end NetworkUtility.HttpClient
