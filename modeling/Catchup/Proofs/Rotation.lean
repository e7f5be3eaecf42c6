import Mathlib.Data.List.Nodup
import Mathlib.Data.List.Perm.Basic
import Mathlib.Data.Nat.ModEq

/-! Going round a list.

When the last item has had its turn, the first one comes again: what is taken is a segment of the
endless repetition of the list. Windows that follow each other make up one longer segment, and in
any segment the items of a list occur equally often, give or take one. Windows that move on by one
place each overlap; over one lap every item is in the same number of them. -/

set_option autoImplicit false

namespace Catchup

variable {α : Type} {items : List α} {offset other length : Nat}

/-- So many items of the endless repetition of a list, from a place on. -/
def segment (items : List α) (offset length : Nat) : List α :=
  (List.range' offset length).filterMap fun place => items[place % items.length]?

theorem segment_add (items : List α) (offset first second : Nat) :
    segment items offset (first + second) =
      segment items offset first ++ segment items (offset + first) second := by
  rw [segment, ← List.range'_append_1, List.filterMap_append]
  rfl

theorem segment_succ (items : List α) (offset length : Nat) :
    segment items offset (length + 1) =
      segment items offset length ++ items[(offset + length) % items.length]?.toList := by
  rw [segment_add]
  simp only [segment, List.range'_one, List.filterMap_cons, List.filterMap_nil]
  cases items[(offset + length) % items.length]? <;> rfl

/-- Only the place within the list matters. -/
theorem segment_congr (same : offset ≡ other [MOD items.length]) (length : Nat) :
    segment items offset length = segment items other length := by
  induction length with
  | zero => rfl
  | succ length ih => rw [segment_succ, segment_succ, ih, same.add_right length]

theorem segment_mod (items : List α) (offset length : Nat) :
    segment items (offset % items.length) length = segment items offset length :=
  segment_congr (Nat.mod_modEq _ _) length

theorem length_segment (nonempty : items ≠ []) (offset length : Nat) :
    (segment items offset length).length = length := by
  induction length with
  | zero => rfl
  | succ length ih =>
    have within := Nat.mod_lt (offset + length) (List.length_pos_iff.mpr nonempty)
    rw [segment_succ, List.getElem?_eq_getElem within, List.length_append, ih]
    rfl

theorem segment_ne_nil (nonempty : items ≠ []) (positive : 1 ≤ length) (offset : Nat) :
    segment items offset length ≠ [] := by
  rw [← List.length_pos_iff, length_segment nonempty]
  exact positive

/-! ## One lap -/

theorem segment_of_zero (short : length ≤ items.length) :
    segment items 0 length = items.take length := by
  induction length with
  | zero => rfl
  | succ length ih =>
    have before : length ≤ items.length := Nat.le_of_succ_le short
    rw [segment_succ, ih before, Nat.zero_add, Nat.mod_eq_of_lt short, List.take_add_one]

theorem segment_to_end (within : offset ≤ items.length) :
    segment items offset (items.length - offset) = items.drop offset := by
  have whole : segment items 0 (offset + (items.length - offset)) = items := by
    rw [Nat.add_sub_cancel' within, segment_of_zero le_rfl, List.take_length]
  rw [segment_add, segment_of_zero within, Nat.zero_add] at whole
  exact List.append_cancel_left (whole.trans (List.take_append_drop offset items).symm)

theorem segment_lap (within : offset ≤ items.length) :
    segment items offset items.length = items.drop offset ++ items.take offset := by
  have around : items.length ≡ 0 [MOD items.length] := Nat.modEq_zero_iff_dvd.mpr dvd_rfl
  calc segment items offset items.length
      = segment items offset (items.length - offset + offset) := by
        rw [Nat.sub_add_cancel within]
    _ = items.drop offset ++ segment items (offset + (items.length - offset)) offset := by
        rw [segment_add, segment_to_end within]
    _ = items.drop offset ++ items.take offset := by
        rw [Nat.add_sub_cancel' within, segment_congr around, segment_of_zero within]

theorem perm_segment_lap (items : List α) (offset : Nat) :
    (segment items offset items.length).Perm items := by
  cases items with
  | nil => exact List.Perm.refl []
  | cons first rest =>
    have within := (Nat.mod_lt offset (Nat.zero_lt_succ rest.length)).le
    rw [← segment_mod, segment_lap within]
    exact List.perm_append_comm.trans (List.take_append_drop _ _ ▸ List.Perm.refl _)

theorem rotateLeft_eq_segment (items : List α) (offset : Nat) :
    items.rotateLeft offset = segment items offset items.length := by
  simp only [List.rotateLeft]
  split
  next few =>
    match items, few with
    | [], _ => rfl
    | [only], _ => simp [segment, Nat.mod_one]
  next many =>
    have within := (Nat.mod_lt offset (Nat.zero_lt_of_lt (Nat.lt_of_not_le many))).le
    rw [← segment_mod, segment_lap within]

/-- The next few items of a list that has been rotated. -/
theorem take_rotateLeft (nonempty : items ≠ []) (short : length ≤ items.length) (offset : Nat) :
    (items.rotateLeft offset).take length = segment items offset length := by
  obtain ⟨rest, lap⟩ := Nat.exists_eq_add_of_le short
  rw [rotateLeft_eq_segment, lap, segment_add]
  exact List.take_left' (length_segment nonempty offset length)

theorem nodup_segment (distinct : items.Nodup) (short : length ≤ items.length) (offset : Nat) :
    (segment items offset length).Nodup := by
  obtain ⟨rest, lap⟩ := Nat.exists_eq_add_of_le short
  have whole := (perm_segment_lap items offset).nodup_iff.mpr distinct
  rw [lap, segment_add] at whole
  exact whole.of_append_left

theorem mem_segment_of_lap {item : α} (member : item ∈ items) (long : items.length ≤ length)
    (offset : Nat) : item ∈ segment items offset length := by
  obtain ⟨rest, rfl⟩ := Nat.exists_eq_add_of_le long
  rw [segment_add]
  exact List.mem_append_left _ ((perm_segment_lap items offset).mem_iff.mpr member)

/-! ## Many laps -/

section
variable [BEq α] {item : α}

theorem count_segment_lap (items : List α) (offset length : Nat) (item : α) :
    (segment items offset (items.length + length)).count item =
      items.count item + (segment items offset length).count item := by
  have around : offset + items.length ≡ offset [MOD items.length] := Nat.add_mod_right _ _
  rw [segment_add, List.count_append, (perm_segment_lap items offset).count_eq,
    segment_congr around]

variable [LawfulBEq α]

/-- Every item occurs once in each full lap, and at most once in what is left. -/
theorem count_segment (distinct : items.Nodup) (member : item ∈ items) (offset length : Nat) :
    length / items.length ≤ (segment items offset length).count item ∧
      (segment items offset length).count item ≤ length / items.length + 1 := by
  have positive := List.length_pos_of_mem member
  induction length using Nat.strongRecOn with
  | ind length ih =>
    by_cases short : length < items.length
    · rw [Nat.div_eq_of_lt short, Nat.zero_add]
      have once := nodup_segment distinct short.le offset
      exact ⟨Nat.zero_le _, List.nodup_iff_count_le_one.mp once item⟩
    · -- Take one lap off: the item occurs in it exactly once.
      obtain ⟨rest, rfl⟩ := Nat.exists_eq_add_of_le (Nat.le_of_not_lt short)
      obtain ⟨least, most⟩ := ih rest (Nat.lt_add_of_pos_left positive)
      rw [count_segment_lap, List.count_eq_one_of_mem distinct member,
        Nat.add_div_left rest positive]
      omega

end

/-! ## Windows -/

/-- Windows of one length that follow each other round a list, the first one from a place on. -/
def InTurn (items : List α) (length : Nat) : Nat → List (List α) → Prop
  | _, [] => True
  | offset, window :: later =>
    window = segment items offset length ∧ InTurn items length (offset + length) later

namespace InTurn

variable {first second windows : List (List α)}

theorem append : InTurn items length offset (first ++ second) ↔
    InTurn items length offset first ∧
      InTurn items length (offset + length * first.length) second := by
  induction first generalizing offset with
  | nil => simp [InTurn]
  | cons window later ih =>
    have further : offset + length + length * later.length =
        offset + length * (later.length + 1) := by
      rw [Nat.mul_succ, Nat.add_assoc, Nat.add_comm length]
    simp only [List.cons_append, InTurn, ih, List.length_cons, further, and_assoc]

theorem concat (turn : InTurn items length offset windows) :
    InTurn items length offset
      (windows ++ [segment items (offset + length * windows.length) length]) :=
  append.mpr ⟨turn, rfl, trivial⟩

theorem flatten (turn : InTurn items length offset windows) :
    windows.flatten = segment items offset (length * windows.length) := by
  induction windows generalizing offset with
  | nil => rfl
  | cons window later ih =>
    obtain ⟨rfl, turn⟩ := turn
    rw [List.flatten_cons, ih turn, ← segment_add, List.length_cons, Nat.mul_succ, Nat.add_comm]

theorem exists_of_infix (turn : InTurn items length offset windows) (part : first <:+: windows) :
    ∃ later, InTurn items length later first := by
  obtain ⟨before, after, rfl⟩ := part
  exact ⟨_, (append.mp (append.mp turn).1).2⟩

theorem exists_of_mem {window : List α} (turn : InTurn items length offset windows)
    (member : window ∈ windows) : ∃ later, window = segment items later length := by
  obtain ⟨before, after, rfl⟩ := List.append_of_mem member
  exact ⟨_, (append.mp turn).2.1⟩

end InTurn

/-! ## Sliding windows -/

/-- Windows of one length, each of which begins one place after the one before. -/
def sliding (items : List α) (offset length count : Nat) : List (List α) :=
  (List.range' offset count).map fun place => segment items place length

theorem sliding_succ (items : List α) (offset length count : Nat) :
    sliding items offset length (count + 1) =
      segment items offset length :: sliding items (offset + 1) length count := by
  simp only [sliding, List.range'_succ, List.map_cons]

@[simp] theorem length_sliding (items : List α) (offset length count : Nat) :
    (sliding items offset length count).length = count := by
  simp [sliding]

theorem exists_of_mem_sliding {window : List α} {count : Nat}
    (member : window ∈ sliding items offset length count) :
    ∃ later, window = segment items later length := by
  obtain ⟨later, -, rfl⟩ := List.mem_map.mp member
  exact ⟨later, rfl⟩

/-- Windows that follow each other without a gap slide from a place of their own. -/
theorem exists_of_infix_sliding {part : List (List α)} {count : Nat}
    (within : part <:+: sliding items offset length count) :
    ∃ later, part = sliding items later length part.length := by
  obtain ⟨before, after, whole⟩ := within
  refine ⟨offset + before.length, ?_⟩
  -- Both sides have the same number of windows, so they are compared place by place.
  apply List.ext_getElem
  · simp
  intro place inPart inSliding
  have inWhole : before.length + place < (sliding items offset length count).length := by
    rw [← whole]
    simp only [List.length_append]
    omega
  have found : (sliding items offset length count)[before.length + place] = part[place] := by
    simp only [← whole, List.append_assoc]
    rw [List.getElem_append_right (Nat.le_add_right ..)]
    simp only [Nat.add_sub_cancel_left]
    exact List.getElem_append_left inPart
  rw [← found]
  simp [sliding, Nat.add_assoc]

/-- Where every window is longer by one item, the items that are added make up one segment. -/
theorem perm_flatten_sliding_succ (items : List α) (offset length count : Nat) :
    (sliding items offset (length + 1) count).flatten.Perm
      ((sliding items offset length count).flatten ++
        segment items (offset + length) count) := by
  induction count generalizing offset with
  | zero => exact List.Perm.refl []
  | succ count ih =>
    have further : offset + length + 1 = offset + 1 + length := by omega
    rw [sliding_succ, sliding_succ, List.flatten_cons, List.flatten_cons, segment_add,
      Nat.add_comm count 1, segment_add items (offset + length), further]
    simp only [List.append_assoc]
    apply List.Perm.append_left
    -- The last item of the first window moves behind all the other windows.
    exact ((ih (offset + 1)).append_left _).trans (List.perm_append_comm_assoc ..)

/-- As many windows as there are items: each item occurs in each place of a window once. -/
theorem perm_flatten_sliding (items : List α) (offset length : Nat) :
    (sliding items offset length items.length).flatten.Perm
      (List.replicate length items).flatten := by
  induction length with
  | zero => simp [sliding, segment]
  | succ length ih =>
    refine (perm_flatten_sliding_succ ..).trans ?_
    rw [List.replicate_succ', List.flatten_append, List.flatten_singleton]
    exact ih.append (perm_segment_lap items _)

section
variable [DecidableEq α] {item : α}

theorem countP_mem_of_nodup {windows : List (List α)}
    (distinct : ∀ window ∈ windows, window.Nodup) :
    windows.countP (item ∈ ·) = windows.flatten.count item := by
  induction windows with
  | nil => rfl
  | cons window later ih =>
    obtain ⟨here, distinct⟩ := List.forall_mem_cons.mp distinct
    rw [List.countP_cons, ih distinct, List.flatten_cons, List.count_append, Nat.add_comm,
      here.count]
    simp only [decide_eq_true_eq]

/-- Every item is in as many of these windows as a window has places. -/
theorem countP_sliding (distinct : items.Nodup) (short : length ≤ items.length)
    (member : item ∈ items) (offset : Nat) :
    (sliding items offset length items.length).countP (item ∈ ·) = length := by
  have apart : ∀ window ∈ sliding items offset length items.length, window.Nodup := by
    intro window slid
    obtain ⟨later, rfl⟩ := exists_of_mem_sliding slid
    exact nodup_segment distinct short later
  rw [countP_mem_of_nodup apart, (perm_flatten_sliding items offset length).count_eq,
    List.count_flatten, List.map_replicate, List.sum_replicate_nat,
    List.count_eq_one_of_mem distinct member, Nat.mul_one]

end

end Catchup
