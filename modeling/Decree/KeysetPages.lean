import Mathlib.Data.List.Sort
import Mathlib.Data.Prod.Lex
import Mathlib.Data.Set.Function

/-!
# Walking a Table Page by Page

A table is listed by requests that each return a page and a token for the next one, until there
is no token. The first page is cut from some order of the rows. Every other page is cut from
the rows whose key is below that of the last row of the page before, the highest first.

## Main results

* `Served.visits_iff_ties`: when a walk visits every row once.
-/

open List

namespace KeysetPages

variable {α β κ ε : Type*} {serve : String → Except ε (List β × String)}

/-! ### Following tokens -/

/-- **Following the tokens**: what the pages list from a token on, up to the page behind which
there is no token. -/
inductive Follows (serve : String → Except ε (List β × String)) : String → List β → Prop
  | last {token : String} {page : List β} (h : serve token = .ok (page, "")) :
      Follows serve token page
  | more {token next : String} {page rest : List β} (h : serve token = .ok (page, next))
      (hnext : next ≠ "") (hrest : Follows serve next rest) : Follows serve token (page ++ rest)

/-- A walk is determined. -/
theorem Follows.unique {token : String} {l l' : List β} (h : Follows serve token l)
    (h' : Follows serve token l') : l = l' := by
  induction h generalizing l' with
  | last h =>
    cases h' with
    | last h2 =>
      rw [h] at h2
      cases h2
      rfl
    | more h2 hnext =>
      rw [h] at h2
      cases h2
      exact absurd rfl hnext
  | more h hnext _ ih =>
    cases h' with
    | last h2 =>
      rw [h] at h2
      cases h2
      exact absurd rfl hnext
    | more h2 _ hrest =>
      rw [h] at h2
      cases h2
      rw [ih hrest]

/-- **The walk** from the empty token **visits the rows**, every one of them once. -/
def Visits (serve : String → Except ε (List β × String)) (rows : List β) : Prop :=
  ∃ l, Follows serve "" l ∧ l.Perm rows

/-- The token of the `n`-th request of a walk along a table that changes, while it goes on. -/
def tokenAt (serve : ℕ → String → Except ε (List β × String)) : ℕ → Option String
  | 0 => some ""
  | n + 1 => (tokenAt serve n).bind fun token =>
    match serve n token with
    | .ok (_, next) => if next = "" then none else some next
    | .error _ => none

def pageAt (serve : ℕ → String → Except ε (List β × String)) (n : ℕ) : List β :=
  match (tokenAt serve n).map (serve n) with
  | some (.ok (page, _)) => page
  | _ => []

theorem Follows.not_visits {l rows : List β} (h : Follows serve "" l) (hp : ¬ l.Perm rows) :
    ¬ Visits serve rows := by
  rintro ⟨l', h', hp'⟩
  rw [h.unique h'] at hp
  exact hp hp'

/-! ### The order of the keys -/

section Below

variable [LinearOrder κ] (key : α → κ)

instance total_key : Std.Total fun a b : α => key b ≤ key a :=
  ⟨fun a b => le_total (key b) (key a)⟩

instance isTrans_key : IsTrans α fun a b => key b ≤ key a :=
  ⟨fun _ _ _ h h' => h'.trans h⟩

/-- The rows, the highest key first. -/
def descending (rows : List α) : List α :=
  rows.insertionSort fun a b => key b ≤ key a

/-- The rows below a key, the highest first. -/
def below (rows : List α) (k : κ) : List α :=
  descending key (rows.filter fun a => key a < k)

variable {key} {rows A B : List α} {a r : α} {k : κ}

theorem mem_descending : a ∈ descending key rows ↔ a ∈ rows := (perm_insertionSort _ _).mem_iff

theorem mem_below : a ∈ below key rows k ↔ a ∈ rows ∧ key a < k := by
  rw [below, mem_descending, mem_filter, decide_eq_true_iff]

/-- A sorted permutation is the listing. -/
theorem eq_descending (hkeys : (rows.map key).Nodup) (hp : A.Perm rows)
    (hs : A.Pairwise fun a b => key b ≤ key a) : A = descending key rows := by
  have hp' : A.Perm (descending key rows) := hp.trans (perm_insertionSort _ _).symm
  refine hp'.eq_of_pairwise ?_ hs (pairwise_insertionSort _ _)
  intro a b ha hb h h'
  exact inj_on_of_nodup_map hkeys (hp.mem_iff.mp ha) (mem_descending.mp hb) (le_antisymm h' h)

/-- Keys descend. -/
theorem pairwise_descending (hkeys : (rows.map key).Nodup) :
    (descending key rows).Pairwise fun a b => key b < key a := by
  have hnodup : (descending key rows).Nodup :=
    (perm_insertionSort _ _).nodup_iff.mpr hkeys.of_map
  have hle : (descending key rows).Pairwise fun a b => key b ≤ key a :=
    pairwise_insertionSort _ _
  refine ((List.Pairwise.and_mem.mp hle).and hnodup).imp ?_
  rintro a b ⟨⟨ha, hb, hle⟩, hne⟩
  refine lt_of_le_of_ne hle ?_
  intro h
  exact hne (inj_on_of_nodup_map hkeys (mem_descending.mp ha) (mem_descending.mp hb) h.symm)

theorem nodup_below (hrows : rows.Nodup) : (below key rows k).Nodup :=
  (perm_insertionSort _ _).nodup_iff.mpr (hrows.filter _)

/-- **Behind a row** of the order are the rows below it. -/
theorem below_eq (hkeys : (rows.map key).Nodup) (h : descending key rows = A ++ r :: B) :
    below key rows (key r) = B := by
  have hlt := pairwise_descending hkeys
  have hp : (A ++ r :: B).Perm rows := h ▸ perm_insertionSort _ _
  rw [h, pairwise_append, pairwise_cons] at hlt
  obtain ⟨-, ⟨hB, hsorted⟩, hA⟩ := hlt
  have hkeep : (A ++ r :: B).filter (fun a => key a < key r) = B := by
    rw [filter_append, filter_cons_of_neg (by simp), filter_eq_nil_iff.mpr,
      nil_append, filter_eq_self.mpr]
    · intro a ha
      exact decide_eq_true (hB a ha)
    · intro a ha
      simpa using (hA a ha r mem_cons_self).le
  have hperm : B.Perm (rows.filter fun a => key a < key r) := by
    rw [← hkeep]
    exact hp.filter _
  have hsub : ((rows.filter fun a => key a < key r).map key).Nodup :=
    hkeys.sublist (filter_sublist.map _)
  exact (eq_descending hsub hperm (hsorted.imp le_of_lt)).symm

/-- A row cuts the listing. -/
theorem exists_descending_eq (hkeys : (rows.map key).Nodup) (hr : r ∈ rows) :
    ∃ A, descending key rows = A ++ r :: below key rows (key r) := by
  have hmem : r ∈ descending key rows := mem_descending.mpr hr
  obtain ⟨A, B, h⟩ := append_of_mem hmem
  exact ⟨A, by rw [below_eq hkeys h, h]⟩

/-- A row further down cuts what is below. -/
theorem below_below (hkeys : (rows.map key).Nodup) (hr : r ∈ rows)
    (h : below key rows (key r) = A ++ a :: B) : below key rows (key a) = B := by
  obtain ⟨C, hC⟩ := exists_descending_eq hkeys hr
  refine below_eq hkeys (A := C ++ r :: A) ?_
  rw [hC, h, append_assoc, cons_append]

end Below

/-! ### Pages -/

/-- A page of rows, and the token behind it: that of its last row, if there are more rows. -/
def pageOf (out : α → β) (token : α → String) (size : ℕ) (l : List α) : List β × String :=
  ((l.take size).map out,
    if size < l.length then (l[size - 1]?.map token).getD "" else "")

variable {out : α → β} {token : α → String} {size : ℕ} {r : α} {A B : List α}

/-- The last page has no token. -/
theorem pageOf_short {l : List α} (h : l.length ≤ size) :
    pageOf out token size l = (l.map out, "") := by
  rw [pageOf, if_neg (Nat.not_lt.mpr h), take_of_length_le h]

/-- A list that is longer than a page, cut at the last row of the page. -/
theorem exists_cut {l : List α} (hsize : 0 < size) (h : size < l.length)
    (hr : l[size - 1]? = some r) : ∃ A B, l = A ++ r :: B ∧ A.length + 1 = size ∧ B ≠ [] := by
  obtain ⟨hbound, rfl⟩ := List.getElem?_eq_some_iff.mp hr
  refine ⟨l.take (size - 1), l.drop (size - 1 + 1), ?_, ?_, ?_⟩
  · rw [← drop_eq_getElem_cons, take_append_drop]
  · rw [length_take]
    omega
  · intro hnil
    have hle := drop_eq_nil_iff.mp hnil
    omega

theorem take_cut (hlen : A.length + 1 = size) : (A ++ r :: B).take size = A ++ [r] := by
  rw [← hlen, take_append, take_of_length_le (by omega)]
  simp

/-- Any other page ends in a token. -/
theorem pageOf_long (hlen : A.length + 1 = size) (hB : B ≠ []) :
    pageOf out token size (A ++ r :: B) = ((A ++ [r]).map out, token r) := by
  have hlong : size < (A ++ r :: B).length := by
    have hpos := length_pos_of_ne_nil hB
    rw [length_append, length_cons]
    omega
  have hlast : (A ++ r :: B)[size - 1]? = some r := by
    rw [show size - 1 = A.length by omega, getElem?_append_right (Nat.le_refl _), Nat.sub_self]
    rfl
  rw [pageOf, if_pos hlong, take_cut hlen, hlast]
  rfl

/-- One more row than the size suffices. -/
theorem pageOf_take (hsize : 0 < size) (l : List α) :
    pageOf out token size (l.take (size + 1)) = pageOf out token size l := by
  have hlen : size < (l.take (size + 1)).length ↔ size < l.length := by
    rw [length_take]
    omega
  have hlast : (l.take (size + 1))[size - 1]? = l[size - 1]? := getElem?_take_of_lt (by omega)
  have htake : (l.take (size + 1)).take size = l.take size := by
    rw [take_take, Nat.min_eq_left (Nat.le_succ size)]
  simp only [pageOf, hlen, hlast, htake]

/-- **A table served by pages**: the first is cut from `first`, and behind the token of a row
comes a page of the rows below it. -/
structure Served [LinearOrder κ] (key : α → κ) (serve : String → Except ε (List β × String))
    (out : α → β) (token : α → String) (size : ℕ) (rows first : List α) : Prop where
  pos : 0 < size
  keys : (rows.map key).Nodup
  perm : first.Perm rows
  token_ne : ∀ r ∈ rows, token r ≠ ""
  serve_first : serve "" = .ok (pageOf out token size first)
  serve_token : ∀ r ∈ rows, serve (token r) = .ok (pageOf out token size (below key rows (key r)))

section Served

variable [LinearOrder κ] {key : α → κ} {serve : String → Except ε (List β × String)}
  {rows first : List α} {r : α}

section

variable (h : Served key serve out token size rows first)

include h

/-- **From a row on** the pages list the rows below it. -/
theorem Served.follows_token (hr : r ∈ rows) :
    Follows serve (token r) ((below key rows (key r)).map out) := by
  -- what is listed gets shorter from page to page
  induction hn : (below key rows (key r)).length using Nat.strong_induction_on generalizing r with
  | _ n ih =>
    have hserve := h.serve_token r hr
    by_cases hlen : (below key rows (key r)).length ≤ size
    · rw [pageOf_short hlen] at hserve
      exact .last hserve
    · have hbound : size - 1 < (below key rows (key r)).length := by omega
      obtain ⟨A, B, hcut, hA, hB⟩ :=
        exists_cut h.pos (Nat.lt_of_not_le hlen) (getElem?_eq_getElem hbound)
      generalize (below key rows (key r))[size - 1] = a at hcut
      have ha : a ∈ rows := (mem_below.mp (hcut ▸ mem_append_cons_self)).1
      have hbelow : below key rows (key a) = B := below_below h.keys hr hcut
      have hshort : B.length < n := by
        rw [hcut, length_append, length_cons] at hn
        omega
      have hrest := ih _ hshort ha (by rw [hbelow])
      rw [hcut, pageOf_long hA hB] at hserve
      have hall : (below key rows (key r)).map out = (A ++ [a]).map out ++ B.map out := by
        rw [hcut, ← map_append, append_assoc, singleton_append]
      rw [hall]
      rw [hbelow] at hrest
      exact .more hserve (h.token_ne a ha) hrest

/-- What the walk lists: the first page and what is below its last row. -/
theorem Served.follows_long (hlen : size < first.length) (hr : first[size - 1]? = some r) :
    Follows serve "" ((first.take size ++ below key rows (key r)).map out) := by
  obtain ⟨A, B, rfl, hA, hB⟩ := exists_cut h.pos hlen hr
  have hserve := h.serve_first
  have hmem : r ∈ rows := h.perm.mem_iff.mp mem_append_cons_self
  rw [pageOf_long hA hB] at hserve
  rw [take_cut hA, map_append]
  exact .more hserve (h.token_ne r hmem) (h.follows_token hmem)

end

/-- Rows are a rearrangement of the table where what is listed of them is. -/
theorem perm_of_map {l : List α} (hout : Set.InjOn out {a | a ∈ rows}) (hl : ∀ a ∈ l, a ∈ rows)
    (h : (l.map out).Perm (rows.map out)) : l.Perm rows := by
  rcases isEmpty_or_nonempty α with hα | hα
  · have hnil : ∀ l : List α, l = [] := fun l =>
      eq_nil_iff_forall_not_mem.mpr fun a => hα.elim a
    rw [hnil l, hnil rows]
  · have hinv : ∀ l : List α, (∀ a ∈ l, a ∈ rows) →
        (l.map out).map (Function.invFunOn out {a | a ∈ rows}) = l := by
      intro l hl
      rw [map_map]
      refine (map_congr_left ?_).trans (map_id l)
      intro a ha
      exact hout.leftInvOn_invFunOn (hl a ha)
    have hp := h.map (Function.invFunOn out {a | a ∈ rows})
    rwa [hinv l hl, hinv rows fun _ ha => ha] at hp

/-- The first page and the rows below its last one are all rows, each once. -/
theorem Served.perm_iff (h : Served key serve out token size rows first) :
    (first.take size ++ below key rows (key r)).Perm rows ↔
      ∀ a ∈ rows, a ∈ first.take size ↔ key r ≤ key a := by
  have hrows : rows.Nodup := h.keys.of_map
  have hfirst : first.Nodup := h.perm.nodup_iff.mpr hrows
  have hsplit : (first.take size ++ first.drop size).Nodup := by rwa [take_append_drop]
  have hdrop : ∀ a ∈ rows, a ∈ first.drop size ↔ a ∉ first.take size := by
    intro a ha
    have hmem : a ∈ first.take size ++ first.drop size := by
      rw [take_append_drop]
      exact h.perm.mem_iff.mpr ha
    constructor
    · intro hd ht
      exact (nodup_append.mp hsplit).2.2 a ht a hd rfl
    · exact (mem_append.mp hmem).resolve_left
  have hperm : (first.take size ++ first.drop size).Perm rows := by
    rw [take_append_drop]
    exact h.perm
  calc (first.take size ++ below key rows (key r)).Perm rows
      ↔ (first.take size ++ below key rows (key r)).Perm
          (first.take size ++ first.drop size) := hperm.symm.congr_right _
    _ ↔ (below key rows (key r)).Perm (first.drop size) := perm_append_left_iff _
    _ ↔ ∀ a, a ∈ below key rows (key r) ↔ a ∈ first.drop size :=
        perm_ext_iff_of_nodup (nodup_below hrows) (hfirst.sublist (drop_sublist _ _))
    _ ↔ ∀ a ∈ rows, a ∈ first.take size ↔ key r ≤ key a := by
        refine forall_congr' fun a => ?_
        rw [mem_below]
        by_cases ha : a ∈ rows
        · rw [hdrop a ha, ← not_lt]
          tauto
        · have hd : a ∉ first.drop size := fun hd =>
            ha (h.perm.mem_iff.mp (mem_of_mem_drop hd))
          simp [ha, hd]

/-- **The walk visits every row once** if and only if the rows of the first page are those
whose keys are not below its last. -/
theorem Served.visits_iff (h : Served key serve out token size rows first)
    (hout : Set.InjOn out {a | a ∈ rows}) :
    Visits serve (rows.map out) ↔ (size < first.length → ∀ r, first[size - 1]? = some r →
        ∀ a ∈ rows, a ∈ first.take size ↔ key r ≤ key a) := by
  constructor
  · rintro ⟨l, hl, hp⟩ hlen r hr
    rw [hl.unique (h.follows_long hlen hr)] at hp
    refine h.perm_iff.mp (perm_of_map hout ?_ hp)
    intro a ha
    rcases mem_append.mp ha with ha | ha
    · exact h.perm.mem_iff.mp (mem_of_mem_take ha)
    · exact (mem_below.mp ha).1
  · intro hfit
    by_cases hlen : size < first.length
    · have hbound : size - 1 < first.length := by omega
      have hr : first[size - 1]? = some first[size - 1] := getElem?_eq_getElem hbound
      exact ⟨_, h.follows_long hlen hr, (h.perm_iff.mpr (hfit hlen _ hr)).map out⟩
    · refine ⟨_, .last ?_, h.perm.map out⟩
      rw [h.serve_first, pageOf_short (Nat.le_of_not_lt hlen)]

/-- A walk lists nothing but rows. -/
theorem Served.mem_of_follows (h : Served key serve out token size rows first) {l : List β}
    (hl : Follows serve "" l) {b : β} (hb : b ∈ l) : ∃ a ∈ rows, out a = b := by
  by_cases hlen : size < first.length
  · have hr : first[size - 1]? = some first[size - 1] := getElem?_eq_getElem (by omega)
    rw [hl.unique (h.follows_long hlen hr)] at hb
    obtain ⟨a, ha, rfl⟩ := mem_map.mp hb
    rcases mem_append.mp ha with ha | ha
    · exact ⟨a, h.perm.mem_iff.mp (mem_of_mem_take ha), rfl⟩
    · exact ⟨a, (mem_below.mp ha).1, rfl⟩
  · have hlast : serve "" = .ok (first.map out, "") := by
      rw [h.serve_first, pageOf_short (Nat.le_of_not_lt hlen)]
    rw [hl.unique (.last hlast)] at hb
    obtain ⟨a, ha, rfl⟩ := mem_map.mp hb
    exact ⟨a, h.perm.mem_iff.mp ha, rfl⟩

end Served

/-! ### Ties -/

section Ties

variable {τ ι : Type*} [LinearOrder τ] [LinearOrder ι] (time : α → τ) (id : α → ι)

/-- **No tie is cut wrong**: where there are more rows than the first page has, the rows with
the time of its last row are on it exactly if their identifiers are not below its. -/
def TiesFit (size : ℕ) (first : List α) : Prop :=
  size < first.length → ∀ r, first[size - 1]? = some r →
    ∀ a ∈ first, time a = time r → (a ∈ first.take size ↔ id r ≤ id a)

variable {time id} {serve : String → Except ε (List β × String)} {rows first : List α}

/-- The times of a page are not below that of its last row, and the times behind it are not
above. -/
theorem time_of_sorted {r a : α} (hsorted : first.Pairwise fun a b => time b ≤ time a)
    (hsize : 0 < size) (hlen : size < first.length) (hr : first[size - 1]? = some r) :
    (a ∈ first.take size → time r ≤ time a) ∧ (a ∈ first.drop size → time a ≤ time r) := by
  obtain ⟨A, B, rfl, hA, -⟩ := exists_cut hsize hlen hr
  rw [pairwise_append, pairwise_cons] at hsorted
  obtain ⟨-, ⟨hB, -⟩, hAB⟩ := hsorted
  have hdrop : (A ++ r :: B).drop size = B := by
    rw [← hA, ← drop_drop, drop_left]
    rfl
  constructor
  · intro ha
    rw [take_cut hA, mem_append, mem_singleton] at ha
    rcases ha with ha | rfl
    · exact hAB a ha r mem_cons_self
    · exact le_refl _
  · intro ha
    rw [hdrop] at ha
    exact hB a ha

/-- **The walk visits every row once if and only if no tie is cut wrong**, where the first page
is in the order of the times and the keys are the time and the identifier. -/
theorem Served.visits_iff_ties
    (h : Served (fun a => toLex (time a, id a)) serve out token size rows first)
    (hout : Set.InjOn out {a | a ∈ rows}) (hsorted : first.Pairwise fun a b => time b ≤ time a) :
    Visits serve (rows.map out) ↔ TiesFit time id size first := by
  rw [h.visits_iff hout]
  refine forall_congr' fun hlen => forall_congr' fun r => forall_congr' fun hr => ?_
  have htime := fun a => time_of_sorted (a := a) hsorted h.pos hlen hr
  constructor
  · intro hfit a ha heq
    rw [hfit a (h.perm.mem_iff.mp ha), Prod.Lex.toLex_le_toLex]
    simp [heq]
  · intro hfit a ha
    have ha' : a ∈ first := h.perm.mem_iff.mpr ha
    have hmem : a ∈ first.take size ∨ a ∈ first.drop size := by
      rw [← mem_append, take_append_drop]
      exact ha'
    rw [Prod.Lex.toLex_le_toLex]
    rcases lt_trichotomy (time a) (time r) with hlt | heq | hgt
    · -- an older row is behind the page
      have hnot : a ∉ first.take size := fun hm => absurd ((htime a).1 hm) (not_le.mpr hlt)
      simp [hnot, hlt.not_gt, hlt.ne']
    · rw [hfit a ha' heq]
      simp [heq]
    · -- a newer row is on it
      have hm : a ∈ first.take size :=
        hmem.resolve_right fun hm => absurd ((htime a).2 hm) (not_le.mpr hgt)
      simp [hm, hgt]

end Ties

end KeysetPages
