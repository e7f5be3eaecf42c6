import Catchup.Proofs.Ledger.Representation

/-! The shared generated history, and the ledgers that start on it. -/

set_option autoImplicit false

namespace Catchup

theorem byteArray_toList_loop (bytes : ByteArray) (position : Nat) (read : List UInt8) :
    ByteArray.toList.loop bytes position read =
      read.reverse ++ bytes.data.toList.drop position := by
  fun_induction ByteArray.toList.loop bytes position read with
  | case1 position read inside ih =>
    have bound : position < bytes.data.toList.length := inside
    rw [ih, List.drop_eq_getElem_cons bound, List.reverse_cons, List.append_assoc]
    simp [ByteArray.get!, getElem!_pos bytes.data position inside]
  | case2 position read outside =>
    have bound : bytes.data.toList.length ≤ position := Nat.not_lt.mp outside
    rw [List.drop_eq_nil_of_le bound, List.append_nil]

theorem byteArray_toList (bytes : ByteArray) : bytes.toList = bytes.data.toList :=
  byteArray_toList_loop bytes 0 []

namespace Transaction

theorem payload_generated (number : Nat) :
    (generated number).payload = [116, 120, 45] ++ (toString number).toUTF8.toList := by
  simp only [generated, String.toUTF8, String.toByteArray_append, byteArray_toList,
    ByteArray.data_append, Array.toList_append]
  congr 1

theorem payload_generated_ne_nil (number : Nat) : (generated number).payload ≠ [] := by
  simp [payload_generated]

/-- The first transactions of the shared generated history. -/
def history (count : Nat) : List Transaction := (List.range count).map generated

@[simp] theorem length_history (count : Nat) : (history count).length = count := by
  simp [history]

theorem history_add (first second : Nat) :
    history (first + second) =
      history first ++ (List.range second).map fun offset => generated (first + offset) := by
  simp [history, List.range_add, Function.comp_def]

theorem history_prefix_of_le {first second : Nat} (reached : first ≤ second) :
    history first <+: history second := by
  obtain ⟨more, rfl⟩ := Nat.exists_eq_add_of_le reached
  rw [history_add]
  exact List.prefix_append ..

theorem take_history {first second : Nat} (reached : first ≤ second) :
    (history second).take first = history first := by
  have whole := List.prefix_iff_eq_take.mp (history_prefix_of_le reached)
  rw [length_history] at whole
  exact whole.symm

theorem payload_ne_nil_of_mem_history {transaction : Transaction} {count : Nat}
    (member : transaction ∈ history count) : transaction.payload ≠ [] := by
  obtain ⟨number, _, rfl⟩ := List.mem_map.mp member
  exact payload_generated_ne_nil number

end Transaction

namespace Ledger

theorem exists_append (ledger : Ledger) (batch : List Transaction)
    (ticks : ledger.header.timestamp.toNat + 1 < UInt64.size) :
    ∃ header after, ledger.append batch = (.ok header, after) := by
  have next : increment ledger.header.timestamp = .ok (ledger.header.timestamp + 1) :=
    if_pos ticks
  unfold append
  rw [next]
  exact ⟨_, _, rfl⟩

theorem append_generated (count : Nat) :
    ∃ header, empty.append (Transaction.history count) = (.ok header, generated count) := by
  obtain ⟨header, after, appended⟩ := exists_append empty (Transaction.history count) (by decide)
  refine ⟨header, ?_⟩
  rw [generated, ← Transaction.history, appended]

theorem transactions_generated (count : Nat) :
    (generated count).transactions = Transaction.history count := by
  obtain ⟨header, appended⟩ := append_generated count
  obtain ⟨-, -, whole⟩ := append_eq_ok appended
  rw [whole]
  rfl

theorem unreported_generated (count : Nat) : (generated count).unreported = [] := by
  obtain ⟨header, appended⟩ := append_generated count
  obtain ⟨-, -, whole⟩ := append_eq_ok appended
  rw [whole]
  rfl

theorem coherent_generated {count : Nat} (bound : count < UInt64.size) :
    (generated count).Coherent := by
  obtain ⟨header, appended⟩ := append_generated count
  refine coherent_empty.append ?_ appended
  rw [Transaction.length_history]
  exact (Nat.zero_add count).symm ▸ bound

end Ledger

end Catchup
