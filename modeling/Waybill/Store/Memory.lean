import Waybill.Ordered.Map
import Waybill.Task.Run
/-!
# Stores in memory

Records are kept by hash, the entries of the pool by bucket and key. Where several records match,
the first one in the order of hashes is answered.
-/

namespace Waybill

/-- The contents of both stores. -/
structure Memory where
  /-- The records by their hashes. -/
  records : SortedMap String Record
  /-- The values of the pool by bucket and key. -/
  pool : SortedMap (String × String) String

namespace Record

/-- Whether a record belongs to a root of a domain. -/
def isOfRoot (origin : UInt32) (root : String) (r : Record) : Bool :=
  r.origin == origin && r.root == root

/-- Whether a record is of a transfer with these values. -/
def isOfSend (destination : UInt32) (recipient amount : String) (block : UInt64) (r : Record) :
    Bool :=
  r.destination == destination && r.dispatchBlock == block && r.recipient == some recipient &&
    r.amount == some amount

/-- Whether a record has this number on its way from one domain to another. -/
def isOfNonce (origin nonce destination : UInt32) (r : Record) : Bool :=
  r.origin == origin && r.nonce == nonce && r.destination == destination

end Record

namespace Memory

/-- Stores without any content. -/
def empty : Memory := ⟨SortedMap.empty, SortedMap.empty⟩

/-- Answers a call. -/
def answer (s : Memory) : (c : Call) → Except Failure c.Answer × Memory
  | .insert r =>
    if s.records.contains r.messageHash then (.error (.alreadyStored r.messageHash), s)
    else (.ok (), { s with records := s.records.insert r.messageHash r })
  | .update r => (.ok (), { s with records := s.records.insert r.messageHash r })
  | .byHash hash => (.ok (s.records.find? hash.text), s)
  | .byRoot origin root => (.ok (s.records.values.filter (Record.isOfRoot origin root.text)), s)
  | .bySend destination recipient amount block =>
    let wanted := Record.isOfSend destination recipient.pretty amount.decimal block
    (.ok (s.records.values.find? wanted), s)
  | .byNonce origin nonce destination =>
    (.ok (s.records.values.find? (Record.isOfNonce origin nonce destination)), s)
  | .page limit offset => (.ok ((s.records.values.drop offset.toNat).take limit.toNat), s)
  | .put bucket key value => (.ok (), { s with pool := s.pool.insert (bucket, key) value })
  | .get bucket key => (.ok (s.pool.find? (bucket, key)), s)
  | .has bucket key => (.ok (s.pool.contains (bucket, key)), s)

/-- Stores in memory as a backend. -/
def backend : Backend Memory := ⟨answer⟩

end Memory

end Waybill
