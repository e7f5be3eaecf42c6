import Catchup.Proofs.Wire.Form
import Catchup.Wire.Format
import Mathlib.Logic.Equiv.Defs

/-! Reading back what was written.

Each type has a form, put together as the type is. Its items are written plainly, and the values that
are read are those of the form: each of them is read as the item that its plain value was written
for. So nothing is lost when what came in is written again, and only one way of writing it is left.
-/

set_option autoImplicit false

namespace Catchup

open Wire (Value Form mapM_eq_some_iff)

/-- A type with its form. -/
class Formed (α : Type) [Written α] where
  form : Form
  read?_write (item : α) : read? (write item) = some item
  form_of_read? {value : Value} {item : α} : read? value = some item → form value (write item)
  exists_read? {value plain : Value} :
    form value plain → ∃ item : α, read? value = some item ∧ write item = plain

open Formed (form)

/-! ## Numbers -/

/-- A word is written as its number, and read from the numbers for which there is room. -/
@[reducible] def Formed.number {α : Type} [Written α] {bound : Nat} {toNat : α → Nat}
    {ofNat : Nat → α} (small : ∀ item, toNat item < bound)
    (ofNat_toNat : ∀ item, ofNat (toNat item) = item)
    (toNat_ofNat : ∀ number, number < bound → toNat (ofNat number) = number)
    (writes : ∀ item, write item = .natural (toNat item))
    (reads : ∀ value : Value, (read? value : Option α) = (value.below? bound).map ofNat) :
    Formed α where
  form := .Natural bound
  read?_write item := by
    rw [writes, reads, Value.below?_eq_some_iff.mpr ⟨rfl, small item⟩, Option.map_some,
      ofNat_toNat]
  form_of_read? {value item} found := by
    rw [reads, Option.map_eq_some_iff] at found
    obtain ⟨number, below, rfl⟩ := found
    obtain ⟨rfl, small⟩ := Value.below?_eq_some_iff.mp below
    rw [writes, toNat_ofNat number small]
    exact .below small
  exists_read? {value plain} fits := by
    cases fits with
    | @below number small =>
      refine ⟨ofNat number, ?_, ?_⟩
      · rw [reads, Value.below?_eq_some_iff.mpr ⟨rfl, small⟩, Option.map_some]
      · rw [writes, toNat_ofNat number small]

instance : Formed UInt8 :=
  .number UInt8.toNat_lt (fun _ => UInt8.ofNat_toNat) (fun _ => UInt8.toNat_ofNat_of_lt')
    (fun _ => rfl) fun _ => rfl

instance : Formed UInt64 :=
  .number UInt64.toNat_lt (fun _ => UInt64.ofNat_toNat) (fun _ => UInt64.toNat_ofNat_of_lt')
    (fun _ => rfl) fun _ => rfl

/-! ## Lists -/

theorem read?_list_eq_some_iff {α : Type} [Written α] {value : Value} {items : List α} :
    read? value = some items ↔
      ∃ values, value = .list values ∧
        List.Forall₂ (fun value item => read? value = some item) values items := by
  cases value <;> simp [read?, mapM_eq_some_iff]

section
variable {α : Type} [Written α] [Formed α]

theorem forall₂_form_of_read? {values : List Value} {items : List α}
    (found : List.Forall₂ (fun value item => read? value = some item) values items) :
    List.Forall₂ (form α) values (items.map write) :=
  List.forall₂_map_right_iff.mpr (found.imp fun _ _ => Formed.form_of_read?)

theorem exists_forall₂_read? {values plains : List Value}
    (fits : List.Forall₂ (form α) values plains) :
    ∃ items : List α, List.Forall₂ (fun value item => read? value = some item) values items ∧
      items.map write = plains := by
  induction fits with
  | nil => exact ⟨[], .nil, rfl⟩
  | cons first rest ih =>
    obtain ⟨item, found, rfl⟩ := Formed.exists_read? first
    obtain ⟨items, others, rfl⟩ := ih
    exact ⟨item :: items, .cons found others, rfl⟩

instance : Formed (List α) where
  form := .Listed (form α) none
  read?_write items := by
    refine read?_list_eq_some_iff.mpr ⟨_, rfl, List.forall₂_map_left_iff.mpr ?_⟩
    exact List.forall₂_same.mpr fun item _ => Formed.read?_write item
  form_of_read? {value items} found := by
    obtain ⟨values, rfl, each⟩ := read?_list_eq_some_iff.mp found
    exact .each nofun (forall₂_form_of_read? each)
  exists_read? {value plain} fits := by
    cases fits with
    | each size each =>
      obtain ⟨items, found, rfl⟩ := exists_forall₂_read? each
      exact ⟨items, read?_list_eq_some_iff.mpr ⟨_, rfl, found⟩, rfl⟩

end

/-- The bytes have to be as many as a digest has, and then they are its bytes. -/
theorem read?_digest_eq_some_iff {value : Value} {digest : Digest} :
    read? value = some digest ↔ read? value = some digest.toList := by
  refine Option.bind_eq_some_iff.trans ⟨?_, fun found => ⟨_, found, ?_⟩⟩
  · rintro ⟨bytes, found, same⟩
    split at same
    next size =>
      cases same
      simpa [Digest.toList] using found
    next => cases same
  · rw [dif_pos digest.length_toList]
    exact congrArg some (Digest.toList_inj.mp (by simp [Digest.toList]))

instance : Formed Digest where
  form := .Listed (form UInt8) (some 32)
  read?_write digest := read?_digest_eq_some_iff.mpr (Formed.read?_write digest.toList)
  form_of_read? {value digest} found := by
    obtain ⟨values, rfl, each⟩ := read?_list_eq_some_iff.mp (read?_digest_eq_some_iff.mp found)
    refine .each (fun exact given => ?_) (forall₂_form_of_read? each)
    cases given
    rw [each.length_eq, Digest.length_toList]
  exists_read? {value plain} fits := by
    cases fits with
    | each size each =>
      obtain ⟨bytes, found, rfl⟩ := exists_forall₂_read? each
      have length : bytes.length = 32 := found.length_eq ▸ size 32 rfl
      refine ⟨⟨⟨bytes.toArray, by simpa using length⟩⟩, ?_, rfl⟩
      exact read?_digest_eq_some_iff.mpr (read?_list_eq_some_iff.mpr ⟨_, rfl, found⟩)

/-! ## Wrappers -/

/-- What is written and read as the one thing in it has the form of that thing. -/
@[reducible] def Formed.wrapping {α β : Type} [Written α] [Written β] [Formed β] (of : β ≃ α)
    (writes : ∀ item, write item = write (of.symm item))
    (reads : ∀ value : Value, (read? value : Option α) = (read? value : Option β).map of) :
    Formed α where
  form := form β
  read?_write item := by
    rw [writes, reads, Formed.read?_write, Option.map_some, of.apply_symm_apply]
  form_of_read? {value item} found := by
    rw [reads, Option.map_eq_some_iff] at found
    obtain ⟨part, found, rfl⟩ := found
    rw [writes, of.symm_apply_apply]
    exact Formed.form_of_read? found
  exists_read? {value plain} fits := by
    obtain ⟨part, found, rfl⟩ := Formed.exists_read? (α := β) fits
    refine ⟨of part, ?_, ?_⟩
    · rw [reads, found, Option.map_some]
    · rw [writes, of.symm_apply_apply]

instance : Formed PeerId :=
  .wrapping ⟨.mk, (·.number), fun _ => rfl, fun _ => rfl⟩ (fun _ => rfl) fun _ => rfl

instance : Formed RequestId :=
  .wrapping ⟨.mk, (·.number), fun _ => rfl, fun _ => rfl⟩ (fun _ => rfl) fun _ => rfl

instance : Formed Version :=
  .wrapping ⟨.mk, (·.number), fun _ => rfl, fun _ => rfl⟩ (fun _ => rfl) fun _ => rfl

instance : Formed Transaction :=
  .wrapping ⟨.mk, (·.payload), fun _ => rfl, fun _ => rfl⟩ (fun _ => rfl) fun _ => rfl

/-! ## Structures -/

/-- A field of a structure. -/
structure Field (α : Type) where
  name : String
  {Part : Type}
  [written : Written Part]
  [formed : Formed Part]
  part : α → Part

attribute [instance] Field.written Field.formed

/-- The members are read as the fields of the item. -/
abbrev Reads {α : Type} (fields : List (Field α)) (members : List Value) (item : α) : Prop :=
  List.Forall₂ (fun field member => read? member = some (field.part item)) fields members

/-- A structure is written as a record of its fields, and read from whatever offers them. -/
class Structured (α : Type) [Written α] where
  fields : List (Field α)
  distinct : (fields.map Field.name).Nodup
  writes (item : α) :
    write item = .record (fields.map fun field => (field.name, write (field.part item)))
  reads : ∃ assemble? : List Value → Option α,
    (∀ value : Value, read? value = (value.members? (fields.map Field.name)).bind assemble?) ∧
    ∀ (members : List Value) (item : α),
      assemble? members = some item ↔ Reads fields members item
  /-- Any parts make up an item. -/
  exists_item {members : List Value} :
    List.Forall₂ (fun field member => ∃ part : field.Part, read? member = some part)
      fields members → ∃ item, Reads fields members item

section
variable {α : Type} {fields : List (Field α)} {members plains : List Value} {item : α}

theorem Reads.each (found : Reads fields members item) :
    Form.Each (fields.map fun field => form field.Part) members
      (fields.map fun field => write (field.part item)) := by
  induction found with
  | nil => exact .nil
  | cons first rest ih => exact .cons (Formed.form_of_read? first) ih

theorem exists_parts (fits : Form.Each (fields.map fun field => form field.Part) members plains) :
    List.Forall₂ (fun field member => ∃ part : field.Part, read? member = some part)
      fields members := by
  induction fields generalizing members plains with
  | nil => cases fits; exact .nil
  | cons field fields ih =>
    cases fits with
    | cons first rest =>
      obtain ⟨part, found, -⟩ := Formed.exists_read? first
      exact .cons ⟨part, found⟩ (ih rest)

theorem Reads.plains_eq (found : Reads fields members item)
    (fits : Form.Each (fields.map fun field => form field.Part) members plains) :
    fields.map (fun field => write (field.part item)) = plains := by
  induction found generalizing plains with
  | nil => cases fits; rfl
  | cons first others ih =>
    cases fits with
    | cons fit rest =>
      obtain ⟨part, read, rfl⟩ := Formed.exists_read? fit
      cases first.symm.trans read
      rw [List.map_cons, ih rest]

end

section
variable {α : Type} [Written α] [Structured α]

open Structured (fields)

theorem read?_eq_some_iff {value : Value} {item : α} :
    read? value = some item ↔ ∃ members,
      value.Offers ((fields (α := α)).map Field.name) members ∧ Reads fields members item := by
  obtain ⟨assemble?, found, assembled⟩ := Structured.reads (α := α)
  simp only [found, Option.bind_eq_some_iff, Value.members?_eq_some_iff, assembled]

instance : Formed α where
  form := .Record ((fields (α := α)).map fun field => (field.name, form field.Part))
  read?_write item := by
    rw [Structured.writes, ← List.zip_map']
    refine read?_eq_some_iff.mpr
      ⟨_, Value.offers_record_zip Structured.distinct (by simp), ?_⟩
    exact List.forall₂_map_right_iff.mpr
      (List.forall₂_same.mpr fun field _ => Formed.read?_write (field.part item))
  form_of_read? {value item} found := by
    obtain ⟨members, offers, found⟩ := read?_eq_some_iff.mp found
    rw [Structured.writes, Form.record_map_iff, ← List.zip_map']
    exact ⟨_, _, offers, found.each, rfl⟩
  exists_read? {value plain} fits := by
    obtain ⟨members, plains, offers, each, rfl⟩ := Form.record_map_iff.mp fits
    obtain ⟨item, found⟩ := Structured.exists_item (exists_parts each)
    refine ⟨item, read?_eq_some_iff.mpr ⟨members, offers, found⟩, ?_⟩
    rw [Structured.writes, ← List.zip_map', found.plains_eq each]

end

instance : Structured Header where
  fields := [⟨"state_version", Header.version⟩, ⟨"epoch", Header.epoch⟩,
    ⟨"proposer_timestamp_ms", Header.timestamp⟩, ⟨"accumulator", Header.accumulator⟩]
  distinct := by decide
  writes _ := rfl
  reads := by
    refine ⟨_, fun _ => rfl, ?_⟩
    rintro (_ | ⟨version, _ | ⟨epoch, _ | ⟨timestamp, _ | ⟨accumulator, _ | _⟩⟩⟩⟩) ⟨⟩ <;>
      simp [Option.bind_eq_some_iff]
  exists_item := by
    rintro _ (_ | ⟨⟨version, first⟩, _ | ⟨⟨epoch, second⟩, _ | ⟨⟨timestamp, third⟩,
      _ | ⟨⟨accumulator, fourth⟩, _ | _⟩⟩⟩⟩)
    exact ⟨⟨version, epoch, timestamp, accumulator⟩,
      .cons first (.cons second (.cons third (.cons fourth .nil)))⟩

instance : Structured Extension where
  fields := [⟨"start", Extension.start⟩, ⟨"transactions", Extension.transactions⟩,
    ⟨"end", Extension.finish⟩]
  distinct := by decide
  writes _ := rfl
  reads := by
    refine ⟨_, fun _ => rfl, ?_⟩
    rintro (_ | ⟨start, _ | ⟨transactions, _ | ⟨finish, _ | _⟩⟩⟩) ⟨⟩ <;>
      simp [Option.bind_eq_some_iff]
  exists_item := by
    rintro _ (_ | ⟨⟨start, first⟩, _ | ⟨⟨transactions, second⟩, _ | ⟨⟨finish, third⟩, _ | _⟩⟩⟩)
    exact ⟨⟨start, transactions, finish⟩, .cons first (.cons second (.cons third .nil))⟩

instance : Structured SyncRequest where
  fields := [⟨"from", SyncRequest.after⟩, ⟨"request_id", SyncRequest.id⟩]
  distinct := by decide
  writes _ := rfl
  reads := by
    refine ⟨_, fun _ => rfl, ?_⟩
    rintro (_ | ⟨after, _ | ⟨id, _ | _⟩⟩) ⟨⟩ <;> simp [Option.bind_eq_some_iff]
  exists_item := by
    rintro _ (_ | ⟨⟨after, first⟩, _ | ⟨⟨id, second⟩, _ | _⟩⟩)
    exact ⟨⟨after, id⟩, .cons first (.cons second .nil)⟩

/-- A structure of one field. -/
@[reducible] def Structured.single {α β : Type} [Written α] [Written β] [Formed β] (name : String)
    (of : β ≃ α) (writes : ∀ item, write item = .record [(name, write (of.symm item))])
    (reads : ∀ value : Value, (read? value : Option α) = do
      let [member] ← value.members? [name] | none
      return of (← read? member)) : Structured α where
  fields := [⟨name, of.symm⟩]
  distinct := by simp
  writes := writes
  reads := by
    refine ⟨_, reads, ?_⟩
    rintro (_ | ⟨member, _ | _⟩) item <;> simp [Option.bind_eq_some_iff, ← Equiv.eq_symm_apply]
  exists_item := by
    rintro _ (_ | ⟨⟨part, found⟩, _ | _⟩)
    exact ⟨of part, .cons (by simpa using found) .nil⟩

instance : Structured StatusResponse :=
  .single "header" ⟨.mk, (·.header), fun _ => rfl, fun _ => rfl⟩ (fun _ => rfl) fun _ => rfl

instance : Structured SyncResponse :=
  .single "extension" ⟨.mk, (·.extension), fun _ => rfl, fun _ => rfl⟩ (fun _ => rfl) fun _ => rfl

instance : Structured StatusUpdate :=
  .single "header" ⟨.mk, (·.header), fun _ => rfl, fun _ => rfl⟩ (fun _ => rfl) fun _ => rfl

instance : Formed StatusRequest where
  form := .Nothing
  read?_write _ := rfl
  form_of_read? {value request} found := by
    cases value with
    | null => exact .null
    | _ => cases found
  exists_read? {value plain} fits := by
    cases fits with
    | null => exact ⟨{}, rfl, rfl⟩

/-! ## What nodes exchange -/

namespace Wire

namespace Form

def word : Form := .Natural UInt64.size

def digest : Form := .Listed (.Natural UInt8.size) (some 32)

def header : Form :=
  .Record [("state_version", word), ("epoch", word), ("proposer_timestamp_ms", word),
    ("accumulator", digest)]

def transaction : Form := .Listed (.Natural UInt8.size) none

def extension : Form :=
  .Record [("start", header), ("transactions", .Listed transaction none), ("end", header)]

end Form

/-- The types whose values are exchanged, alone or as a part of others. -/
inductive Kind where
  | digest
  | peer
  | requestId
  | version
  | header
  | transaction
  | extension
  | statusRequest
  | statusResponse
  | syncRequest
  | syncResponse
  | statusUpdate
  deriving DecidableEq, Repr

namespace Kind

def form : Kind → Form
  | .digest => .digest
  | .peer | .requestId | .version => .word
  | .header => .header
  | .transaction => .transaction
  | .extension => .extension
  | .statusRequest => .Nothing
  | .statusResponse => .Record [("header", .header)]
  | .syncRequest => .Record [("from", .header), ("request_id", .word)]
  | .syncResponse => .Record [("extension", .extension)]
  | .statusUpdate => .Record [("header", .header)]

/-- A type of which values are written and read. -/
structure Carried where
  (Item : Type)
  [written : Written Item]
  [formed : Formed Item]

def carried : Kind → Carried
  | .digest => ⟨Digest⟩
  | .peer => ⟨PeerId⟩
  | .requestId => ⟨RequestId⟩
  | .version => ⟨Version⟩
  | .header => ⟨Header⟩
  | .transaction => ⟨Transaction⟩
  | .extension => ⟨Extension⟩
  | .statusRequest => ⟨StatusRequest⟩
  | .statusResponse => ⟨StatusResponse⟩
  | .syncRequest => ⟨SyncRequest⟩
  | .syncResponse => ⟨SyncResponse⟩
  | .statusUpdate => ⟨StatusUpdate⟩

def Item (kind : Kind) : Type := kind.carried.Item

instance (kind : Kind) : Written kind.Item := kind.carried.written

instance (kind : Kind) : Formed kind.Item := kind.carried.formed

theorem form_eq (kind : Kind) : kind.form = Formed.form kind.Item := by
  cases kind <;> rfl

/-- Everything that is exchanged is read as what was written. The values that are read are those of
the form of their kind, and what each of them is read as is written in one way only: plainly, like
every other value that is read as the same. -/
theorem round_trip (kind : Kind) :
    (∀ item : kind.Item, read? (write item) = some item) ∧
    (∀ (value : Value) (item : kind.Item),
      read? value = some item ↔ kind.form value (write item)) ∧
    ∀ value plain : Value, kind.form value plain →
      kind.form plain plain ∧ (∀ other, kind.form value other → other = plain) ∧
      ∃ item : kind.Item, read? value = some item ∧ write item = plain ∧
        read? plain = some item := by
  rw [form_eq]
  have back := Formed.read?_write (α := kind.Item)
  refine ⟨back, fun value item => ⟨Formed.form_of_read?, fun fits => ?_⟩,
    fun value plain fits => ?_⟩
  · obtain ⟨other, found, same⟩ := Formed.exists_read? (α := kind.Item) fits
    -- Two items that are written alike are read back as one.
    have equal : some other = some item := by rw [← back other, same, back item]
    exact found.trans equal
  · obtain ⟨item, found, rfl⟩ := Formed.exists_read? (α := kind.Item) fits
    refine ⟨Formed.form_of_read? (back item), fun other fit => ?_, item, found, rfl, back item⟩
    obtain ⟨again, read, rfl⟩ := Formed.exists_read? (α := kind.Item) fit
    cases found.symm.trans read
    rfl

/-- The number stands first, a foreign field after it, and the header is a bare list. -/
example :
    (read? (.record [("request_id", .natural 7), ("hint", .null),
      ("from", .list [.natural 1, .natural 0, .natural 5, write Digest.zero])]) :
        Option SyncRequest) =
      some ⟨⟨⟨1⟩, 0, 5, .zero⟩, ⟨7⟩⟩ := rfl

end Kind

end Wire

end Catchup
