import ArchiveOverlay.Ordered
import ArchiveOverlay.Text.Order
import Mathlib.Data.List.Induction
import Mathlib.Data.String.Basic

namespace ArchiveOverlay

namespace Text

theorem precedes_iff_lt (s t : List Char) : precedes s t = true ↔ s < t := by
  induction s generalizing t with
  | nil => cases t <;> simp [precedes]
  | cons a s ih =>
      cases t with
      | nil => simp [precedes]
      | cons b t =>
          rw [List.cons_lt_cons_iff]
          simp only [precedes]
          rcases Nat.lt_trichotomy a.toNat b.toNat with hlt | heq | hgt
          · have hab : a < b := hlt
            simp [hlt, hab]
          · have hab : a = b := Char.toNat_inj.mp heq
            subst hab
            simp [ih]
          · have hba : b < a := hgt
            simp [hgt, Nat.lt_asymm hgt, not_lt_of_gt hba, ne_of_gt hba]

theorem before_iff_lt {s t : String} : before s t = true ↔ s < t := by
  rw [before, precedes_iff_lt, String.lt_iff_toList_lt]

theorem earlier_eq_min (s t : String) : earlier s t = min s t := by
  by_cases h : t < s
  · rw [earlier, if_pos (before_iff_lt.mpr h), min_eq_right h.le]
  · rw [earlier, if_neg (mt before_iff_lt.mp h), min_eq_left (not_lt.mp h)]

end Text

namespace Ordered

variable {α κ : Type} [LinearOrder κ]

/-- What `upsert` relies on: `before` compares keys, and merging keeps the key. -/
structure Keyed (before : α → α → Bool) (merge : α → α → α) (key : α → κ) : Prop where
  before_iff : ∀ a b, before a b = true ↔ key a < key b
  key_merge : ∀ a b, key (merge a b) = key a

def Ascending (key : α → κ) (rows : List α) : Prop :=
  rows.Pairwise fun a b => key a < key b

def mergeAll (merge : α → α → α) : List α → Option α
  | [] => none
  | row :: rows => some (rows.foldl merge row)

variable {before : α → α → Bool} {merge : α → α → α} {key : α → κ}

theorem mergeAll_concat (rows : List α) (x : α) :
    mergeAll merge (rows ++ [x]) =
      some (match mergeAll merge rows with
        | none => x
        | some y => merge y x) := by
  cases rows with
  | nil => rfl
  | cons row rows => simp [mergeAll]

theorem mergeAll_eq_none_iff {rows : List α} : mergeAll merge rows = none ↔ rows = [] := by
  cases rows <;> simp [mergeAll]

/-- A flag that is set by either of two rows is set in the merge if any row sets it. -/
theorem mergeAll_any (flag : α → Bool) (hflag : ∀ a b, flag (merge a b) = (flag a || flag b))
    {rows : List α} {x : α} (h : mergeAll merge rows = some x) : flag x = rows.any flag := by
  cases rows with
  | nil => cases h
  | cons row rows =>
      cases h
      induction rows generalizing row with
      | nil => simp
      | cons next rows ih =>
          rw [List.foldl_cons, ih (merge row next), List.any_cons, List.any_cons, List.any_cons,
            hflag, Bool.or_assoc]

/-- What a merge takes from the earlier row is that of the first. -/
theorem mergeAll_first {β : Type} (field : α → β)
    (hfield : ∀ a b, field (merge a b) = field a) (rows : List α) :
    (mergeAll merge rows).map field = rows.head?.map field := by
  cases rows with
  | nil => rfl
  | cons row rows =>
      induction rows generalizing row with
      | nil => rfl
      | cons next rows ih =>
          simpa [mergeAll, hfield] using ih (merge row next)

/-- A field of which a merge keeps the lesser is in the merge the least of the rows. -/
theorem mergeAll_least (field : α → κ)
    (hfield : ∀ a b, field (merge a b) = min (field a) (field b))
    {rows : List α} {x : α} (h : mergeAll merge rows = some x) :
    (∃ y ∈ rows, field y = field x) ∧ ∀ y ∈ rows, field x ≤ field y := by
  induction rows using List.reverseRecOn generalizing x with
  | nil => cases h
  | append_singleton rows last ih =>
      rw [mergeAll_concat, Option.some.injEq] at h
      cases hrows : mergeAll merge rows with
      | none =>
          rw [hrows] at h
          subst h
          rw [mergeAll_eq_none_iff] at hrows
          simp [hrows]
      | some z =>
          rw [hrows] at h
          subst h
          obtain ⟨⟨y, hy, hyz⟩, hleast⟩ := ih hrows
          rw [hfield]
          constructor
          · rcases le_total (field z) (field last) with hle | hle
            · exact ⟨y, by simp [hy], by rw [min_eq_left hle, hyz]⟩
            · exact ⟨last, by simp, by rw [min_eq_right hle]⟩
          · intro w hw
            rcases List.mem_append.mp hw with hw | hw
            · exact (min_le_left _ _).trans (hleast w hw)
            · rw [List.mem_singleton.mp hw]
              exact min_le_right _ _

theorem key_upsert_mem (hk : Keyed before merge key) {x y : α} {rows : List α}
    (h : y ∈ upsert before merge x rows) : key y = key x ∨ ∃ z ∈ rows, key y = key z := by
  induction rows with
  | nil =>
      rw [upsert, List.mem_singleton] at h
      exact .inl (congrArg key h)
  | cons z rows ih =>
      rw [upsert] at h
      split at h
      · rcases List.mem_cons.mp h with rfl | h
        · exact .inl rfl
        · exact .inr ⟨y, h, rfl⟩
      · split at h
        · rcases List.mem_cons.mp h with rfl | h
          · exact .inr ⟨y, by simp, rfl⟩
          · rcases ih h with heq | ⟨w, hw, heq⟩
            · exact .inl heq
            · exact .inr ⟨w, by simp [hw], heq⟩
        · rcases List.mem_cons.mp h with rfl | h
          · exact .inr ⟨z, by simp, hk.key_merge z x⟩
          · exact .inr ⟨y, by simp [h], rfl⟩

theorem upsert_ascending (hk : Keyed before merge key) {rows : List α}
    (hrows : Ascending key rows) (x : α) : Ascending key (upsert before merge x rows) := by
  induction rows with
  | nil => exact List.pairwise_singleton _ _
  | cons y rows ih =>
      obtain ⟨hy, htail⟩ := List.pairwise_cons.mp hrows
      rw [upsert]
      split
      next hbefore =>
        rw [hk.before_iff] at hbefore
        refine List.pairwise_cons.mpr ⟨?_, hrows⟩
        intro z hz
        rcases List.mem_cons.mp hz with rfl | hz
        · exact hbefore
        · exact hbefore.trans (hy z hz)
      next hbefore =>
        split
        next hafter =>
          rw [hk.before_iff] at hafter
          refine List.pairwise_cons.mpr ⟨?_, ih htail⟩
          intro z hz
          rcases key_upsert_mem hk hz with heq | ⟨w, hw, heq⟩
          · exact heq ▸ hafter
          · exact heq ▸ hy w hw
        next hafter =>
          refine List.pairwise_cons.mpr ⟨?_, htail⟩
          intro z hz
          rw [hk.key_merge]
          exact hy z hz

theorem find?_eq_none_of_lt {rows : List α} {k : κ} (h : ∀ y ∈ rows, k < key y) :
    rows.find? (fun y => decide (key y = k)) = none := by
  rw [List.find?_eq_none]
  intro y hy
  simpa using (h y hy).ne'

/-- Only the row with the new key changes. -/
theorem find?_upsert (hk : Keyed before merge key) {rows : List α}
    (hrows : Ascending key rows) (x : α) (k : κ) :
    (upsert before merge x rows).find? (fun y => decide (key y = k)) =
      if key x = k then
        some (match rows.find? (fun y => decide (key y = k)) with
          | none => x
          | some y => merge y x)
      else rows.find? (fun y => decide (key y = k)) := by
  induction rows with
  | nil => by_cases hx : key x = k <;> simp [upsert, hx]
  | cons y rows ih =>
      obtain ⟨hy, htail⟩ := List.pairwise_cons.mp hrows
      rw [upsert]
      split
      next hbefore =>
        rw [hk.before_iff] at hbefore
        -- The new row goes to the front, and all rows behind it have greater keys.
        by_cases hx : key x = k
        · have hnone : (y :: rows).find? (fun y => decide (key y = k)) = none := by
            apply find?_eq_none_of_lt
            intro z hz
            rcases List.mem_cons.mp hz with rfl | hz
            · exact hx ▸ hbefore
            · exact hx ▸ hbefore.trans (hy z hz)
          rw [hnone, if_pos hx, List.find?_cons_of_pos (by simpa using hx)]
        · rw [if_neg hx, List.find?_cons_of_neg (by simpa using hx)]
      next hbefore =>
        split
        next hafter =>
          rw [hk.before_iff] at hafter
          by_cases hyk : key y = k
          · have hx : key x ≠ k := fun h => (hyk.trans h.symm ▸ hafter).ne rfl
            rw [if_neg hx, List.find?_cons_of_pos (by simpa using hyk),
              List.find?_cons_of_pos (by simpa using hyk)]
          · rw [List.find?_cons_of_neg (by simpa using hyk),
              List.find?_cons_of_neg (by simpa using hyk)]
            exact ih htail
        next hafter =>
          rw [hk.before_iff] at hbefore hafter
          have hxy : key x = key y := le_antisymm (not_lt.mp hafter) (not_lt.mp hbefore)
          by_cases hyk : key y = k
          · rw [if_pos (hxy.trans hyk),
              List.find?_cons_of_pos (by simpa [hk.key_merge] using hyk),
              List.find?_cons_of_pos (by simpa using hyk)]
          · rw [if_neg (hxy ▸ hyk),
              List.find?_cons_of_neg (by simpa [hk.key_merge] using hyk),
              List.find?_cons_of_neg (by simpa using hyk)]

theorem collect_concat (rows : List α) (x : α) :
    collect before merge (rows ++ [x]) = upsert before merge x (collect before merge rows) :=
  List.foldl_concat _ _ _ _

theorem collect_ascending (hk : Keyed before merge key) (rows : List α) :
    Ascending key (collect before merge rows) := by
  induction rows using List.reverseRecOn with
  | nil => exact List.Pairwise.nil
  | append_singleton rows x ih =>
      rw [collect_concat]
      exact upsert_ascending hk ih x

/-- The collected row with a key is the merge of all rows with this key. -/
theorem find?_collect (hk : Keyed before merge key) (rows : List α) (k : κ) :
    (collect before merge rows).find? (fun y => decide (key y = k)) =
      mergeAll merge (rows.filter fun y => decide (key y = k)) := by
  induction rows using List.reverseRecOn with
  | nil => rfl
  | append_singleton rows x ih =>
      rw [collect_concat, find?_upsert hk (collect_ascending hk rows), ih, List.filter_append]
      by_cases hx : key x = k
      · rw [if_pos hx, List.filter_cons_of_pos (by simpa using hx), List.filter_nil,
          mergeAll_concat]
      · rw [if_neg hx, List.filter_cons_of_neg (by simpa using hx), List.filter_nil,
          List.append_nil]

/-- In an ascending list a key stands for one row. -/
theorem Ascending.filter_key {rows : List α} (hrows : Ascending key rows) (k : κ) :
    (rows.filter fun y => decide (key y = k)) =
      (rows.find? fun y => decide (key y = k)).toList := by
  induction rows with
  | nil => rfl
  | cons y rows ih =>
      obtain ⟨hy, htail⟩ := List.pairwise_cons.mp hrows
      by_cases hyk : key y = k
      · rw [List.filter_cons_of_pos (by simpa using hyk),
          List.find?_cons_of_pos (by simpa using hyk), ih htail,
          find?_eq_none_of_lt fun z hz => hyk ▸ hy z hz]
        rfl
      · rw [List.filter_cons_of_neg (by simpa using hyk),
          List.find?_cons_of_neg (by simpa using hyk), ih htail]

theorem Ascending.mem_iff {rows : List α} (hrows : Ascending key rows) {x : α} :
    x ∈ rows ↔ rows.find? (fun y => decide (key y = key x)) = some x := by
  constructor
  · intro hx
    have hmem : x ∈ rows.filter fun y => decide (key y = key x) := by simp [hx]
    rw [hrows.filter_key, Option.mem_toList] at hmem
    exact hmem
  · exact List.mem_of_find?_eq_some

theorem Ascending.eq_of_mem_iff {rows rows' : List α} (hrows : Ascending key rows)
    (hrows' : Ascending key rows') (h : ∀ x, x ∈ rows ↔ x ∈ rows') : rows = rows' := by
  have hnodup : ∀ {rows : List α}, Ascending key rows → rows.Nodup :=
    fun hrows => hrows.imp fun hlt heq => hlt.ne (congrArg key heq)
  have hperm : rows.Perm rows' :=
    (List.perm_ext_iff_of_nodup (hnodup hrows) (hnodup hrows')).mpr h
  exact hperm.eq_of_pairwise (fun _ _ _ _ hlt hgt => absurd hlt hgt.not_gt) hrows hrows'

/-- Ascending lists that have the same row for every key are the same. -/
theorem Ascending.ext {rows rows' : List α} (hrows : Ascending key rows)
    (hrows' : Ascending key rows')
    (h : ∀ k, rows.find? (fun y => decide (key y = k)) =
      rows'.find? (fun y => decide (key y = k))) :
    rows = rows' := by
  apply hrows.eq_of_mem_iff hrows'
  intro x
  rw [hrows.mem_iff, hrows'.mem_iff, h]

/-- Rows that their keys tell apart, and of which the first of each kind is kept, are all kept. -/
theorem mem_collect_iff (hk : Keyed before merge key) (hfirst : ∀ a b, merge a b = a)
    {rows : List α} (hinj : ∀ a ∈ rows, ∀ b ∈ rows, key a = key b → a = b) {x : α} :
    x ∈ collect before merge rows ↔ x ∈ rows := by
  have hhead : (mergeAll merge (rows.filter fun y => decide (key y = key x))).map id =
      (rows.filter fun y => decide (key y = key x)).head?.map id :=
    mergeAll_first id hfirst _
  rw [Option.map_id_fun, id, id] at hhead
  rw [(collect_ascending hk rows).mem_iff, find?_collect hk, hhead]
  constructor
  · intro h
    exact (List.mem_filter.mp (List.mem_of_head? h)).1
  · intro hx
    have hmem : x ∈ rows.filter fun y => decide (key y = key x) := by simp [hx]
    obtain ⟨first, rest, hrest⟩ := List.exists_cons_of_ne_nil (List.ne_nil_of_mem hmem)
    obtain ⟨hfirst, hkey⟩ := List.mem_filter.mp (hrest ▸ List.mem_cons_self :
      first ∈ rows.filter fun y => decide (key y = key x))
    rw [hrest, List.head?_cons, hinj first hfirst x hx (of_decide_eq_true hkey)]

/-- Where a merge adds up a number that is one in every row, it counts the rows. -/
theorem mergeAll_count (field : α → Nat) (hfield : ∀ a b, field (merge a b) = field a + field b)
    {rows : List α} (hone : ∀ row ∈ rows, field row = 1) {x : α}
    (h : mergeAll merge rows = some x) :
    field x = rows.length := by
  induction rows using List.reverseRecOn generalizing x with
  | nil => cases h
  | append_singleton rows last ih =>
      rw [mergeAll_concat, Option.some.injEq] at h
      have hlast := hone last (by simp)
      cases hrows : mergeAll merge rows with
      | none =>
          rw [hrows] at h
          subst h
          rw [mergeAll_eq_none_iff] at hrows
          simp [hrows, hlast]
      | some y =>
          rw [hrows] at h
          subst h
          rw [hfield, ih (fun row hrow => hone row (by simp [hrow])) hrows, hlast]
          simp

section Parts

variable {β : Type} {before' : β → β → Bool} {merge' : β → β → β} (part : α → β)

theorem map_upsert (hbefore : ∀ a b, before' (part a) (part b) = before a b)
    (hmerge : ∀ a b, merge' (part a) (part b) = part (merge a b)) (x : α) (rows : List α) :
    (upsert before merge x rows).map part = upsert before' merge' (part x) (rows.map part) := by
  induction rows with
  | nil => rfl
  | cons y rows ih =>
      rw [upsert, List.map_cons, upsert, hbefore, hbefore]
      split
      · rfl
      · split
        · rw [List.map_cons, ih]
        · rw [List.map_cons, hmerge]

/-- Part of each collected row is what collecting the parts gives. -/
theorem map_collect (hbefore : ∀ a b, before' (part a) (part b) = before a b)
    (hmerge : ∀ a b, merge' (part a) (part b) = part (merge a b)) (rows : List α) :
    (collect before merge rows).map part = collect before' merge' (rows.map part) := by
  induction rows using List.reverseRecOn with
  | nil => rfl
  | append_singleton rows x ih =>
      rw [collect_concat, map_upsert part hbefore hmerge, ih, List.map_append, List.map_singleton,
        collect_concat]

end Parts

end Ordered

end ArchiveOverlay
