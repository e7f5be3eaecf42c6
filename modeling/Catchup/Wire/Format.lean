import Catchup.Message
import Catchup.Phase
import Catchup.Wire.Value

/-! The written form of everything that nodes exchange, and how it is read back; and the written
form of a status, which is not read.

A wrapper is written as what it wraps, a structure as a record of its fields. Reading also takes the
fields of a structure as a list. -/

set_option autoImplicit false

namespace Catchup

open Wire (Value)

class Written (α : Type) where
  write : α → Value
  read? : Value → Option α

export Written (write read?)

instance : Written UInt8 where
  write byte := .natural byte.toNat
  read? value := UInt8.ofNat <$> value.below? UInt8.size

instance : Written UInt64 where
  write word := .natural word.toNat
  read? value := UInt64.ofNat <$> value.below? UInt64.size

instance {α : Type} [Written α] : Written (List α) where
  write items := .list (items.map write)
  read?
    | .list items => items.mapM read?
    | _ => none

instance : Written Digest where
  write digest := write digest.toList
  read? value := do
    let bytes : List UInt8 ← read? value
    if size : bytes.length = 32 then some ⟨bytes.toArray, by simpa using size⟩ else none

instance : Written PeerId where
  write peer := write peer.number
  read? value := PeerId.mk <$> read? value

instance : Written RequestId where
  write id := write id.number
  read? value := RequestId.mk <$> read? value

instance : Written Version where
  write version := write version.number
  read? value := Version.mk <$> read? value

instance : Written Transaction where
  write transaction := write transaction.payload
  read? value := Transaction.mk <$> read? value

def Header.fieldNames : List String :=
  ["state_version", "epoch", "proposer_timestamp_ms", "accumulator"]

instance : Written Header where
  write header := .record (Header.fieldNames.zip
    [write header.version, write header.epoch, write header.timestamp, write header.accumulator])
  read? value := do
    let [version, epoch, timestamp, accumulator] ← value.members? Header.fieldNames | none
    return ⟨← read? version, ← read? epoch, ← read? timestamp, ← read? accumulator⟩

def Extension.fieldNames : List String := ["start", "transactions", "end"]

instance : Written Extension where
  write extension := .record (Extension.fieldNames.zip
    [write extension.start, write extension.transactions, write extension.finish])
  read? value := do
    let [start, transactions, finish] ← value.members? Extension.fieldNames | none
    return ⟨← read? start, ← read? transactions, ← read? finish⟩

/-- It carries nothing, and is written as nothing. -/
instance : Written StatusRequest where
  write _ := .null
  read?
    | .null => some {}
    | _ => none

instance : Written StatusResponse where
  write response := .record [("header", write response.header)]
  read? value := do
    let [header] ← value.members? ["header"] | none
    return ⟨← read? header⟩

instance : Written SyncRequest where
  write request := .record [("from", write request.after), ("request_id", write request.id)]
  read? value := do
    let [after, id] ← value.members? ["from", "request_id"] | none
    return ⟨← read? after, ← read? id⟩

instance : Written SyncResponse where
  write response := .record [("extension", write response.extension)]
  read? value := do
    let [extension] ← value.members? ["extension"] | none
    return ⟨← read? extension⟩

instance : Written StatusUpdate where
  write update := .record [("header", write update.header)]
  read? value := do
    let [header] ← value.members? ["header"] | none
    return ⟨← read? header⟩

def PendingRequest.toValue (pending : PendingRequest) : Value :=
  .record [("peer", write pending.peer), ("request_id", write pending.id)]

def Status.toValue (status : Status) : Value :=
  .record [("state", .text status.kind.name), ("current_version", write status.current),
    ("target_version", status.target.elim .null write), ("versions_behind", .natural status.behind),
    ("candidate_count", .natural status.candidateCount),
    ("pending_request", status.pending.elim .null PendingRequest.toValue)]

end Catchup
