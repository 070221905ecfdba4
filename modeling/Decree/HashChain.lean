import Mathlib.Data.List.Forall2
import Mathlib.Data.List.Induction
import Mathlib.Data.List.Nodup
import Mathlib.Data.List.Perm.Basic

/-!
# Hash Chains

A library for logs in which every entry stores a digest of its own content and of the digest
stored before it. Entries are any type with a stored digest, `hash`; the chain starts from
the digest `k` of the empty log. `inputs` lists what a checker of the chain digests. `follow`
recovers the order of a chain from the links alone.

## Main results

* `forall₂_of_head_eq`: the last digest commits to the log.
* `perm_sortByLinks`, `sortByLinks_eq`: the order is recovered.
-/

open List

namespace HashChain

variable {α κ : Type} (hash : α → κ)

/-- Each entry of a log with the **digest stored before it**. -/
def inputs (k : κ) : List α → List (κ × α)
  | [] => []
  | e :: l => (k, e) :: inputs (hash e) l

/-- The last digest of a log. -/
def head (k : κ) (l : List α) : κ :=
  (l.getLast?.map hash).getD k

/-- The head is the last hash. -/
@[simp] theorem head_concat (k : κ) (l : List α) (e : α) : head hash k (l ++ [e]) = hash e := by
  simp [head]

theorem head_cons (k : κ) (e : α) (l : List α) : head hash k (e :: l) = head hash (hash e) l := by
  simp [head, getLast?_cons]

theorem inputs_append (k : κ) (l l' : List α) :
    inputs hash k (l ++ l') = inputs hash k l ++ inputs hash (head hash k l) l' := by
  induction l generalizing k with
  | nil => rfl
  | cons e l ih => simp only [cons_append, inputs, ih, head_cons]

theorem mem_of_mem_inputs {k : κ} {l : List α} {p : κ × α} (h : p ∈ inputs hash k l) : p.2 ∈ l := by
  induction l generalizing k with
  | nil => simp [inputs] at h
  | cons e l ih =>
    obtain rfl | h := mem_cons.mp h
    · exact mem_cons_self
    · exact mem_cons_of_mem _ (ih h)

/-! ### What the last digest commits to -/

section Commitment

variable (digest : κ → α → κ)

/-- Every stored digest is the one of its entry. -/
def Checks (k : κ) (l : List α) : Prop :=
  ∀ p ∈ inputs hash k l, hash p.2 = digest p.1 p.2

variable {hash digest} {k : κ} {l l' l₁ l₂ : List α} {e : α} {R : α → α → Prop}

/-- Checks in a row. -/
theorem checks_append : Checks hash digest k (l ++ l') ↔
      Checks hash digest k l ∧ Checks hash digest (head hash k l) l' := by
  simp only [Checks, inputs_append, forall_mem_append]

theorem checks_singleton : Checks hash digest k [e] ↔ hash e = digest k e := by
  simp [Checks, inputs]

/-- A log that checks and ends in the digest of the empty log is empty. -/
theorem eq_nil_of_head_eq (hc : Checks hash digest k l)
    (hroot : ∀ p ∈ inputs hash k l, digest p.1 p.2 ≠ k) (h : head hash k l = k) : l = [] := by
  obtain rfl | ⟨l, e, rfl⟩ := l.eq_nil_or_concat'
  · rfl
  have hmem : (head hash k l, e) ∈ inputs hash k (l ++ [e]) := by
    simp [inputs_append, inputs]
  rw [head_concat, hc _ hmem] at h
  exact absurd h (hroot _ hmem)

/-- **The last digest commits to the whole log.** `R` is what an equality of two digests
says of the entries. -/
theorem forall₂_of_head_eq (h1 : Checks hash digest k l₁) (h2 : Checks hash digest k l₂)
    (hinj : ∀ p ∈ inputs hash k l₁, ∀ q ∈ inputs hash k l₂,
      digest p.1 p.2 = digest q.1 q.2 → p.1 = q.1 ∧ R p.2 q.2)
    (hroot1 : ∀ p ∈ inputs hash k l₁, digest p.1 p.2 ≠ k)
    (hroot2 : ∀ p ∈ inputs hash k l₂, digest p.1 p.2 ≠ k)
    (h : head hash k l₁ = head hash k l₂) : Forall₂ R l₁ l₂ := by
  -- from the end of the logs: equal digests make the digests before them equal
  induction l₁ using reverseRecOn generalizing l₂ with
  | nil =>
    rw [eq_nil_of_head_eq h2 hroot2 h.symm]
    exact .nil
  | append_singleton l₁ e1 ih =>
    obtain rfl | ⟨l₂, e2, rfl⟩ := l₂.eq_nil_or_concat'
    · exact absurd (eq_nil_of_head_eq h1 hroot1 h) (by simp)
    obtain ⟨h1, hlast1⟩ := checks_append.mp h1
    obtain ⟨h2, hlast2⟩ := checks_append.mp h2
    simp only [inputs_append, inputs, forall_mem_append, forall_mem_singleton] at hinj hroot1 hroot2
    rw [head_concat, head_concat, checks_singleton.mp hlast1, checks_singleton.mp hlast2] at h
    obtain ⟨hprev, hR⟩ := hinj.2.2 h
    exact rel_append (ih h1 h2 (fun p hp => (hinj.1 p hp).1) hroot1.1 hroot2.1 hprev)
      (.cons hR .nil)

end Commitment

/-! ### The order of the links -/

section Order

variable (prev : α → κ)

/-- Every entry stores the digest of the one before it. -/
def Linked (k : κ) (l : List α) : Prop :=
  ∀ p ∈ inputs hash k l, prev p.2 = p.1

variable {hash prev} {k : κ} {l l' : List α} {e : α}

/-- Links in a row. -/
theorem linked_append :
    Linked hash prev k (l ++ l') ↔ Linked hash prev k l ∧ Linked hash prev (head hash k l) l' := by
  simp only [Linked, inputs_append, forall_mem_append]

theorem map_fst_inputs (k : κ) (l : List α) :
    (inputs hash k l).map Prod.fst ++ [head hash k l] = k :: l.map hash := by
  induction l generalizing k with
  | nil => rfl
  | cons e l ih => simp only [inputs, map_cons, cons_append, head_cons, ih]

/-- The previous digests of a linked chain are the root and all digests but the last. -/
theorem Linked.map_prev (h : Linked hash prev k l) :
    l.map prev ++ [head hash k l] = k :: l.map hash := by
  have hsnd : (inputs hash k l).map Prod.snd = l := by
    clear h
    induction l generalizing k with
    | nil => rfl
    | cons e l ih => simp only [inputs, map_cons, ih]
  have hprev : l.map prev = (inputs hash k l).map Prod.fst := by
    conv_lhs => rw [← hsnd, map_map]
    exact map_congr_left h
  rw [hprev, map_fst_inputs]

/-- No two entries have one predecessor. -/
theorem Linked.nodup_prev (h : Linked hash prev k l) (hn : (k :: l.map hash).Nodup) :
    (l.map prev).Nodup ∧ head hash k l ∉ l.map prev := by
  rw [← h.map_prev, nodup_append] at hn
  exact ⟨hn.1, fun hmem => hn.2.2 _ hmem _ (by simp) rfl⟩

variable [DecidableEq κ] (hash prev)

/-- The entry after a digest: the last of the list that stores it as the previous one. -/
def successor (l : List α) (k : κ) : Option α :=
  l.reverse.find? fun e => prev e = k

/-- The **walk along the links** from an entry, which stops at a digest that was seen. -/
def follow (l : List α) : ℕ → List κ → α → List α
  | 0, _, _ => []
  | n + 1, seen, e =>
    if hash e ∈ seen then []
    else
      e :: match successor prev l (hash e) with
        | none => []
        | some e' => follow l n (hash e :: seen) e'

/-- The entries in the order of the links from the root `k`, or as they are if the walk does
not visit all of them. -/
def sortByLinks (k : κ) (l : List α) : List α :=
  if l.length ≤ 1 then l
  else
    match successor prev l k with
    | none => l
    | some root =>
      let ordered := follow hash prev l l.length [] root
      if ordered.length = l.length then ordered else l

variable {hash prev}

/-- An entry succeeds its predecessor. -/
theorem successor_prev (hn : (l.map prev).Nodup) (he : e ∈ l) :
    successor prev l (prev e) = some e := by
  obtain ⟨e', he'⟩ : ∃ e', successor prev l (prev e) = some e' :=
    Option.isSome_iff_exists.mp (find?_isSome.mpr ⟨e, by simpa using he, by simp⟩)
  have hmem : e' ∈ l := by simpa using mem_of_find?_eq_some he'
  have hprev : prev e' = prev e := by simpa using find?_some he'
  rw [he', inj_on_of_nodup_map hn hmem he hprev]

theorem successor_eq_none (h : k ∉ l.map prev) : successor prev l k = none := by
  simp only [successor, find?_eq_none, mem_reverse, decide_eq_true_eq]
  rintro e he rfl
  exact h (mem_map_of_mem he)

/-- The walk lists entries of the list, with distinct digests that were not seen. -/
theorem follow_subset (l : List α) (n : ℕ) (seen : List κ) (he : e ∈ l) :
    follow hash prev l n seen e ⊆ l ∧ ((follow hash prev l n seen e).map hash).Nodup ∧
      ∀ x ∈ follow hash prev l n seen e, hash x ∉ seen := by
  induction n generalizing seen e with
  | zero => exact ⟨nil_subset _, .nil, nofun⟩
  | succ n ih =>
    rw [follow]
    split_ifs with hseen
    · exact ⟨nil_subset _, .nil, nofun⟩
    · cases hnext : successor prev l (hash e) with
      | none => simp [he, hseen]
      | some e' =>
        obtain ⟨hsub, hnodup, hnew⟩ :=
          ih (hash e :: seen) (by simpa using mem_of_find?_eq_some hnext)
        refine ⟨cons_subset.mpr ⟨he, hsub⟩, nodup_cons.mpr ⟨fun hmem => ?_, hnodup⟩, ?_⟩
        · obtain ⟨x, hx, heq⟩ := mem_map.mp hmem
          exact hnew x hx (heq ▸ mem_cons_self)
        · refine forall_mem_cons.mpr ⟨hseen, fun x hx hmem => ?_⟩
          exact hnew x hx (mem_cons_of_mem _ hmem)

/-- What is followed is in the log. -/
theorem follow_subperm (n : ℕ) (seen : List κ) (he : e ∈ l) : follow hash prev l n seen e <+~ l :=
  subperm_of_subset (follow_subset l n seen he).2.1.of_map (follow_subset l n seen he).1

/-- More fuel follows further, or is not needed. -/
theorem follow_succ (l : List α) (n : ℕ) (seen : List κ) (e : α) :
    follow hash prev l (n + 1) seen e = follow hash prev l n seen e ∨
      (follow hash prev l (n + 1) seen e).length = n + 1 := by
  induction n generalizing seen e with
  | zero =>
    by_cases hseen : hash e ∈ seen
    · exact .inl (if_pos hseen)
    · right
      rw [follow, if_neg hseen]
      cases successor prev l (hash e) <;> rfl
  | succ n ih =>
    rw [follow, follow]
    split_ifs with hseen
    · exact .inl rfl
    · cases successor prev l (hash e) with
      | none => exact .inl rfl
      | some e' => exact (ih (hash e :: seen) e').imp (congrArg _) (congrArg (· + 1))

/-- **The walk ends by itself**: it never takes more steps than the list has entries. -/
theorem follow_of_length_le (he : e ∈ l) {n : ℕ} (hn : l.length ≤ n) {seen : List κ} :
    follow hash prev l n seen e = follow hash prev l l.length seen e := by
  obtain ⟨d, rfl⟩ := Nat.exists_eq_add_of_le hn
  induction d with
  | zero => rfl
  | succ d ih =>
    have hle : (follow hash prev l (l.length + d + 1) seen e).length ≤ l.length :=
      (follow_subperm _ seen he).length_le
    rcases follow_succ l (l.length + d) seen e with heq | hlen
    · exact heq.trans (ih (Nat.le_add_right _ _))
    · omega

/-- **No entry is lost or invented**, whatever the links. -/
theorem perm_sortByLinks (k : κ) (l : List α) : (sortByLinks hash prev k l).Perm l := by
  rw [sortByLinks]
  split_ifs
  · rfl
  · cases hroot : successor prev l k with
    | none => rfl
    | some root =>
      have hmem : root ∈ l := by simpa using mem_of_find?_eq_some hroot
      simp only
      split_ifs with hlen
      · exact (follow_subperm _ _ hmem).perm_of_length_le (Nat.le_of_eq hlen.symm)
      · rfl

/-- From any entry of the chain the walk visits what is left of it. -/
theorem follow_eq (pre : List α) {post : List α} (hp : l'.Perm l) (h : Linked hash prev k l)
    (hn : (k :: l.map hash).Nodup) (hl : l = pre ++ e :: post) {n : ℕ} {seen : List κ}
    (hlen : post.length < n) (hseen : ∀ x ∈ e :: post, hash x ∉ seen) :
    follow hash prev l' n seen e = e :: post := by
  have hnp : (l'.map prev).Nodup := (hp.map prev).nodup_iff.mpr (h.nodup_prev hn).1
  induction post generalizing pre e n seen with
  | nil =>
    obtain ⟨n, rfl⟩ := Nat.exists_eq_add_of_lt hlen
    have hlast : hash e ∉ l'.map prev := by
      rw [(hp.map prev).mem_iff, ← head_concat hash k pre e, ← hl]
      exact (h.nodup_prev hn).2
    rw [length_nil, Nat.zero_add, follow, if_neg (hseen e (by simp)), successor_eq_none hlast]
  | cons e' post ih =>
    obtain ⟨n, rfl⟩ : ∃ m, n = m + 1 := ⟨n - 1, by simp at hlen; omega⟩
    have hl' : l = (pre ++ [e]) ++ e' :: post := by simp [hl]
    have hprev : prev e' = hash e := by
      rw [hl', linked_append, head_concat] at h
      exact h.2 (hash e, e') (by simp [inputs])
    have hnext : successor prev l' (hash e) = some e' := by
      rw [← hprev]
      exact successor_prev hnp (hp.mem_iff.mpr (by simp [hl]))
    have hrest : follow hash prev l' n (hash e :: seen) e' = e' :: post := by
      refine ih (pre ++ [e]) hl' (by simpa using hlen) fun x hx => ?_
      rw [hl, map_append, map_cons, nodup_cons, nodup_append, nodup_cons] at hn
      rw [mem_cons, not_or]
      refine ⟨fun heq => hn.2.2.1.1 ?_, hseen x (mem_cons_of_mem _ hx)⟩
      exact heq ▸ mem_map_of_mem hx
    simp only [follow, if_neg (hseen e (by simp)), hnext, hrest]

/-- **The order of a linked chain is recovered** from any permutation of its entries. -/
theorem sortByLinks_eq (hp : l'.Perm l) (h : Linked hash prev k l)
    (hn : (k :: l.map hash).Nodup) : sortByLinks hash prev k l' = l := by
  rw [sortByLinks]
  split_ifs with hlen
  · match l, hp with
    | [], hp => exact hp.eq_nil
    | [_], hp => exact perm_singleton.mp hp
    | _ :: _ :: _, hp => simp [hp.length_eq] at hlen
  match l, hp with
  | [], hp => simp [hp.eq_nil] at hlen
  | root :: post, hp =>
    have hnp : (l'.map prev).Nodup := (hp.map prev).nodup_iff.mpr (h.nodup_prev hn).1
    have hroot : successor prev l' k = some root := by
      rw [← show prev root = k from h (k, root) (by simp [inputs])]
      exact successor_prev hnp (hp.mem_iff.mpr (by simp))
    have hwalk : follow hash prev l' l'.length [] root = root :: post :=
      follow_eq [] hp h hn rfl (by simp [hp.length_eq]) (by simp)
    simp only [hroot, hwalk, if_pos hp.length_eq.symm]

end Order

end HashChain
