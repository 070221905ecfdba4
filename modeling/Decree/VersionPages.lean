import Decree.ConfigStores
import Decree.KeysetPages
import Decree.Pagination

/-!
# Pages of Versions

`ListVersions` on the store in memory (`internal/config/service.go`, `store_memory.go`). A token
is an offset into the versions, the latest first, so a version that is committed between two
requests moves all others back. A walk along the tokens may see a version twice, but it misses
none that was there when it began.

## Main results

* `versions_walked`: the walk lists every version once.
-/

namespace Decree.ConfigStores

open Memory (VersionRow Store)
open KeysetPages Go List

/-- `ListVersions` behind its access checks: the versions of the page and the next token. -/
def listVersions (db : Store) (tenantID : String) (requested : ℤ) (token : String) :
    Except Status (List VersionRow × String) :=
  let pageSize := clampPageSize requested 50 500
  match decodePageToken token with
  | .error _ => .error ⟨.invalidArgument, invalidPageToken⟩
  | .ok offset =>
    match memory (0, 0) db (.listConfigVersions tenantID (pageSize + 1) offset) with
    | .ok (.versions versions, _) => .ok (versions.take pageSize.toNat,
      nextPageToken pageSize versions.length offset)
    | _ => .error (internal "failed to list versions")

/-! ### One request -/

variable {db : Store} {T token : String} {k : ℕ}

/-- A page and its token. -/
theorem listVersions_eq (hk : decodePageToken token = .ok (k : ℤ)) (r : ℤ) :
    listVersions db T r token = .ok (((versionsOf db T).drop k).take (listPageSize r),
      if (versionsOf db T).length ≤ k + listPageSize r then ""
      else encodePageToken (k + listPageSize r)) := by
  obtain ⟨hsize, hpos⟩ := listPageSize_spec r
  have hlimit : (listPageSize r + 1 : ℤ).toNat = listPageSize r + 1 := by omega
  simp only [listVersions, hk, memory, ← hsize, Int.toNat_natCast, hlimit]
  rw [if_neg (by omega), if_pos (by omega)]
  simp only [take_take, nextPageToken, length_take, length_drop]
  congr 3
  · omega
  · simp only [eq_iff_iff]
    omega

/-! ### The walk -/

section Walk

variable {stores : ℕ → Store} {sizes : ℕ → ℤ} {n : ℕ}

/-- The requests, each on the store of its time. -/
abbrev requests (stores : ℕ → Store) (T : String) (sizes : ℕ → ℤ) (n : ℕ) (token : String) :
    Except Status (List VersionRow × String) :=
  listVersions (stores n) T (sizes n) token

def offsetAt (sizes : ℕ → ℤ) : ℕ → ℕ
  | 0 => 0
  | n + 1 => offsetAt sizes n + listPageSize (sizes n)

theorem le_offsetAt (sizes : ℕ → ℤ) (n : ℕ) : n ≤ offsetAt sizes n := by
  induction n with
  | zero => exact le_rfl
  | succ n ih => exact Nat.add_le_add ih (listPageSize_spec _).2

/-- The walk has not ended before the request. -/
def GoesOn (stores : ℕ → Store) (T : String) (sizes : ℕ → ℤ) (n : ℕ) : Prop :=
  ∀ m < n, offsetAt sizes (m + 1) < (versionsOf (stores m) T).length

variable (hlen : ∀ n, (versionsOf (stores n) T).length < 2 ^ 31)

include hlen

/-- The token of each request. -/
theorem tokenAt_spec (n : ℕ) :
    (GoesOn stores T sizes n → ∃ token, tokenAt (requests stores T sizes) n = some token ∧
      decodePageToken token = .ok (offsetAt sizes n : ℤ)) ∧
    (¬ GoesOn stores T sizes n → tokenAt (requests stores T sizes) n = none) := by
  induction n with
  | zero => exact ⟨fun _ => ⟨"", rfl, rfl⟩, fun h => absurd (by simp [GoesOn]) h⟩
  | succ n ih =>
    have hsplit : GoesOn stores T sizes (n + 1) ↔ GoesOn stores T sizes n ∧
        offsetAt sizes n + listPageSize (sizes n) < (versionsOf (stores n) T).length := by
      exact Nat.forall_lt_succ_right
    by_cases hn : GoesOn stores T sizes n
    · obtain ⟨token, htoken, hdec⟩ := ih.1 hn
      rw [hsplit, and_iff_right hn, tokenAt, htoken, Option.bind_some]
      simp only [requests, listVersions_eq hdec]
      constructor
      · intro hlt
        refine ⟨_, ?_, decodePageToken_encodePageToken (Int.natCast_nonneg _) ?_⟩
        · rw [if_neg (not_le.mpr hlt), ← Nat.cast_add, if_neg (encodePageToken_ne_empty _)]
          rfl
        · exact_mod_cast hlt.trans (hlen n)
      · intro hge
        rw [if_pos (not_lt.mp hge), if_pos rfl]
    · refine ⟨fun h => absurd (hsplit.mp h).1 hn, fun _ => ?_⟩
      rw [tokenAt, ih.2 hn, Option.bind_none]

/-- The page of each request. -/
theorem pageAt_eq (hn : GoesOn stores T sizes n) : pageAt (requests stores T sizes) n =
    ((versionsOf (stores n) T).drop (offsetAt sizes n)).take (listPageSize (sizes n)) := by
  obtain ⟨token, htoken, hdec⟩ := (tokenAt_spec hlen n).1 hn
  rw [pageAt, htoken, Option.map_some]
  simp only [requests, listVersions_eq hdec]

theorem GoesOn.lt (h : GoesOn stores T sizes (n + 1)) : n + 1 < 2 ^ 31 :=
  (le_offsetAt sizes (n + 1)).trans_lt ((h n (Nat.lt_succ_self n)).trans (hlen n))

/-- **No version is missed**: what was there at the first request is behind the offset until it
is listed. -/
theorem exists_page
    (hgrow : ∀ n, ∃ new, versionsOf (stores (n + 1)) T = new ++ versionsOf (stores n) T)
    {v : VersionRow} (hv : v ∈ versionsOf (stores 0) T) :
    ∃ n, v ∈ pageAt (requests stores T sizes) n := by
  by_contra hno
  rw [not_exists] at hno
  have hbehind : ∀ n, GoesOn stores T sizes n ∧
      v ∈ (versionsOf (stores n) T).drop (offsetAt sizes n) := by
    intro n
    induction n with
    | zero => exact ⟨by simp [GoesOn], by simpa [offsetAt] using hv⟩
    | succ n ih =>
      obtain ⟨hn, hmem⟩ := ih
      have hpage := hno n
      rw [pageAt_eq hlen hn] at hpage
      rw [← take_append_drop (listPageSize (sizes n)) (drop _ _), mem_append,
        or_iff_right hpage, drop_drop] at hmem
      refine ⟨Nat.forall_lt_succ_right.mpr ⟨hn, ?_⟩, ?_⟩
      · have hpos := length_pos_of_mem hmem
        rw [length_drop] at hpos
        rw [offsetAt]
        omega
      · obtain ⟨new, hnew⟩ := hgrow n
        rw [hnew, drop_append]
        refine mem_append_right _ (Sublist.subset ?_ hmem)
        exact drop_sublist_drop_left _ (Nat.sub_le ..)
  exact absurd (GoesOn.lt hlen (hbehind (2 ^ 31 + 1)).1) (by simp)

theorem mem_of_pageAt {v : VersionRow} (hv : v ∈ pageAt (requests stores T sizes) n) :
    v ∈ (versionsOf (stores n) T).drop (offsetAt sizes n) ∧
      v ∈ (versionsOf (stores n) T).take (offsetAt sizes (n + 1)) := by
  by_cases hn : GoesOn stores T sizes n
  · rw [pageAt_eq hlen hn] at hv
    refine ⟨mem_of_mem_take hv, ?_⟩
    rw [take_drop] at hv
    exact mem_of_mem_drop hv
  · simp [pageAt, (tokenAt_spec hlen n).2 hn] at hv

end Walk

abbrev rowsOf (db : Store) (T : String) : List VersionRow :=
  db.configVersions.filter fun v => v.tenantID = T

/-- A commit adds in front. -/
theorem versionsOf_commit {db' : Store} {new : List VersionRow}
    (hd : ((rowsOf db' T).map VersionRow.version).Nodup)
    (hp : db'.configVersions.Perm (new ++ db.configVersions))
    (hnew : ∀ a ∈ new, ∀ b ∈ db.configVersions, a.tenantID = T → b.tenantID = T →
      b.version < a.version) : ∃ pre, versionsOf db' T = pre ++ versionsOf db T := by
  let pre := descending VersionRow.version (new.filter fun v => v.tenantID = T)
  refine ⟨pre, (eq_descending hd ?_ ?_).symm⟩
  · have hrows := hp.filter fun v => v.tenantID = T
    rw [filter_append] at hrows
    exact ((perm_insertionSort _ _).append (perm_insertionSort _ _)).trans hrows.symm
  · refine pairwise_append.mpr ⟨pairwise_insertionSort _ _,
      pairwise_insertionSort _ _, fun a ha b hb => ?_⟩
    obtain ⟨ha, haT⟩ := mem_filter.mp (mem_descending.mp ha)
    obtain ⟨hb, hbT⟩ := mem_filter.mp (mem_descending.mp hb)
    exact (hnew a ha b hb (by simpa using haT) (by simpa using hbT)).le

/-- **The walk along the versions of a tenant**, while higher versions are committed between the
requests: it ends, each page is in order, and each version that was there at the first request is
on a page, on one only if nothing is committed. Distinct positive `int32` numbers are fewer than
`2 ^ 31`. -/
theorem versions_walked {stores : ℕ → Store} (T : String) (sizes : ℕ → ℤ)
    (hd : ∀ n, ((rowsOf (stores n) T).map VersionRow.version).Nodup)
    (hlen : ∀ n, (rowsOf (stores n) T).length < 2 ^ 31)
    (hgrow : ∀ n, ∃ new, (stores (n + 1)).configVersions.Perm (new ++ (stores n).configVersions) ∧
      ∀ a ∈ new, ∀ b ∈ (stores n).configVersions, a.tenantID = T → b.tenantID = T →
        b.version < a.version) :
    (∃ n, tokenAt (requests stores T sizes) n = none) ∧
    (∀ n token, tokenAt (requests stores T sizes) n = some token → ∃ page next,
      listVersions (stores n) T (sizes n) token = .ok (page, next) ∧
      page.Pairwise fun a b => b.version < a.version) ∧
    ∀ v ∈ rowsOf (stores 0) T, (∃ n, v ∈ pageAt (requests stores T sizes) n) ∧
      ((∀ n, (rowsOf (stores n) T).Perm (rowsOf (stores 0) T)) →
        ∃! n, v ∈ pageAt (requests stores T sizes) n) := by
  have hlen' : ∀ n, (versionsOf (stores n) T).length < 2 ^ 31 := fun n =>
    (length_insertionSort ..).trans_lt (hlen n)
  have hgrow' : ∀ n, ∃ new, versionsOf (stores (n + 1)) T = new ++ versionsOf (stores n) T := by
    intro n
    obtain ⟨new, hp, hnew⟩ := hgrow n
    exact versionsOf_commit (hd (n + 1)) hp hnew
  refine ⟨⟨2 ^ 31 + 1, (tokenAt_spec hlen' _).2 fun h => ?_⟩, fun n token htoken => ?_,
    fun v hv => ?_⟩
  · exact absurd (GoesOn.lt hlen' h) (by simp)
  · by_cases hn : GoesOn stores T sizes n
    · obtain ⟨token', htoken', hdec⟩ := (tokenAt_spec hlen' n).1 hn
      cases htoken.symm.trans htoken'
      refine ⟨_, _, listVersions_eq hdec _, ?_⟩
      exact (pairwise_descending (hd n)).sublist ((take_sublist ..).trans (drop_sublist ..))
    · cases htoken.symm.trans ((tokenAt_spec hlen' n).2 hn)
  · obtain ⟨n, hn⟩ : ∃ n, v ∈ pageAt (requests stores T sizes) n :=
      exists_page hlen' hgrow' (mem_descending.mpr hv)
    refine ⟨⟨n, hn⟩, fun hsame => ?_⟩
    have hversions : ∀ n, versionsOf (stores n) T = versionsOf (stores 0) T := fun n =>
      eq_descending (hd 0) ((perm_insertionSort _ _).trans (hsame n)) (pairwise_insertionSort _ _)
    have hnodup : (versionsOf (stores 0) T).Nodup :=
      (perm_insertionSort _ _).nodup_iff.mpr (hd 0).of_map
    -- a page has nothing of an earlier one
    have hlater : ∀ i j, i < j → v ∈ pageAt (requests stores T sizes) i →
        v ∉ pageAt (requests stores T sizes) j := by
      intro i j hij hi hj
      have htake := (mem_of_pageAt hlen' hi).2
      have hdrop := (mem_of_pageAt hlen' hj).1
      rw [hversions] at htake hdrop
      have hmono : Monotone (offsetAt sizes) := monotone_nat_of_le_succ fun _ => Nat.le_add_right ..
      exact disjoint_take_drop hnodup (hmono hij) htake hdrop
    refine ⟨n, hn, fun m hm => ?_⟩
    rcases lt_trichotomy m n with h | h | h
    · exact absurd hn (hlater m n h hm)
    · exact h
    · exact absurd hm (hlater n m h hn)

namespace Sample

def thirdVersion (n : ℕ) : Store :=
  { Decree.Sample.memory with
    configVersions := (if n = 0 then [] else [⟨(1, 0), "t", 3, none, "x"⟩]) ++
      [⟨(0, 1), "t", 2, none, "x"⟩, ⟨(0, 0), "t", 1, none, "x"⟩] }

end Sample

theorem versions_walked_third :
    ∃ n, ⟨(0, 1), "t", 2, none, "x"⟩ ∈ pageAt (requests Sample.thirdVersion "t" fun _ => 1) n := by
  refine ((versions_walked "t" (fun _ => 1) ?_ ?_ ?_).2.2 _ (by decide)).1
  · rintro (_ | n) <;> simp [rowsOf, Sample.thirdVersion]
  · rintro (_ | n) <;> simp [rowsOf, Sample.thirdVersion]
  · rintro (_ | n)
    · exact ⟨[⟨(1, 0), "t", 3, none, "x"⟩], .refl _, by decide⟩
    · exact ⟨[], .refl _, by simp⟩

end Decree.ConfigStores
