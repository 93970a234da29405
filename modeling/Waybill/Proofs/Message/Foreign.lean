import Waybill.Proofs.Message.RoundTrip
import Waybill.Proofs.Text.IdentifierSpelling
import Waybill.Proofs.Text.WordSpelling
import Waybill.Proofs.Tracker.Runs
import Mathlib.Data.List.ReduceOption
/-!
# Records that come from elsewhere

A record need not have been written here: its texts may be in capitals, without marks, between
blanks, in another base, or nonsense. It is a message if every text that is looked at can be read
and the code is that of a state; otherwise the first field in a fixed order that is not so is
reported. The columns that are computed from others are not looked at, and once a record was taken
up and stored again, doing so once more changes nothing. This holds whatever the readers of digests,
words and byte strings take, as long as they read back what is written. The readers in use are
described from outside, too.

## Main definitions

* `Record.IsReadable`: every text of a record that is looked at can be read.
* `Record.faults`: what is wrong with a record, in the order of the fields.

## Main results

* `Record.faultOf_ofRecordBy`: the first fault of a record is the one that is reported.
* `Record.faults_eq_nil_iff`: a record has no fault if every text can be read.
* `Message.ofRecordBy_normalizes`: all of this together.
* `Record.isReadable_standard_iff`: which records the readers in use take.
-/

namespace Waybill

/-! ### The forms of texts -/

/-- A text is 64 digits of either case behind at most one mark. -/
def Digest.IsText (s : String) : Prop :=
  ∃ digits, Hex.Unmarks Bytes.markLetters (Text.utf8 s) digits ∧ digits.length = 64 ∧
    ∀ b ∈ digits, Hex.IsDigit b

/-- A text is an even number of digits of either case behind at most one mark. -/
def Bytes.IsText (s : String) : Prop :=
  ∃ digits, Hex.Unmarks markLetters (Text.utf8 s) digits ∧ digits.length % 2 = 0 ∧
    ∀ b ∈ digits, Hex.IsDigit b

/-- A text spells a number below `2 ^ 256`. -/
def Word.IsText (s : String) : Prop := ∃ n < 2 ^ 256, Word.Spells (Text.utf8 s) n

/-- A text is an even number of digits of either case, at most 64, between blanks and behind at
most one mark. -/
def Identifier.IsText (s : String) : Prop :=
  ∃ digits, Identifier.Leaves s digits ∧ digits.length % 2 = 0 ∧ digits.length ≤ 64 ∧
    ∀ b ∈ digits, Hex.IsDigit b

theorem Bytes.isText_iff {s : String} : Bytes.IsText s ↔ ∃ bs, Bytes.read s = .ok bs := by
  simp only [Bytes.read_ok_iff]
  constructor
  · rintro ⟨digits, hmark, heven, hdigits⟩
    obtain ⟨bs, -, henc⟩ := Hex.pairs_of_digits 0 heven hdigits
    exact ⟨bs, digits, hmark, heven, hdigits, henc⟩
  · rintro ⟨-, digits, hmark, heven, hdigits, -⟩
    exact ⟨digits, hmark, heven, hdigits⟩

theorem Digest.isText_iff {s : String} : Digest.IsText s ↔ ∃ d, Digest.read s = .ok d := by
  simp only [Digest.read_ok_iff]
  constructor
  · rintro ⟨digits, hmark, hlen, hdigits⟩
    obtain ⟨bs, -, henc⟩ := Hex.pairs_of_digits 0 (by omega) hdigits
    have hbytes : bs.length = 32 := by
      have := Identifier.length_of_encode henc
      omega
    exact ⟨⟨bs, hbytes⟩, digits, hmark, hlen, hdigits, henc⟩
  · rintro ⟨-, digits, hmark, hlen, hdigits, -⟩
    exact ⟨digits, hmark, hlen, hdigits⟩

theorem Word.isText_iff {s : String} : Word.IsText s ↔ ∃ w, Word.read s = .ok w := by
  simp only [Word.read_ok_iff]
  constructor
  · rintro ⟨n, hn, hspells⟩
    exact ⟨BitVec.ofNat 256 n, by rwa [BitVec.toNat_ofNat, Nat.mod_eq_of_lt hn]⟩
  · rintro ⟨w, hspells⟩
    exact ⟨w.toNat, w.isLt, hspells⟩

theorem Identifier.isText_iff {s : String} :
    Identifier.IsText s ↔ ∃ p, Identifier.read s = .ok p := by
  obtain ⟨digits, hleaves⟩ : ∃ digits, Leaves s digits := ⟨_, leaves_iff.mpr rfl⟩
  rw [hleaves.exists_read_iff]
  constructor
  · rintro ⟨others, hothers, h⟩
    rwa [leaves_iff.mp hleaves, ← leaves_iff.mp hothers]
  · exact fun h => ⟨digits, hleaves, h⟩

namespace Record

/-! ### Faults -/

/-- Why a reading fails, if it does. -/
def faultOf {α : Type} : Except Fault α → Option Fault
  | .ok _ => none
  | .error f => some f

@[simp] theorem faultOf_eq_some_iff {α : Type} {x : Except Fault α} {f : Fault} :
    faultOf x = some f ↔ x = .error f := by
  cases x <;> simp [faultOf]

@[simp] theorem faultOf_eq_none_iff {α : Type} {x : Except Fault α} :
    faultOf x = none ↔ ∃ a, x = .ok a := by
  cases x <;> simp [faultOf]

/-- What is read later is looked at only if what is read first is right. -/
theorem faultOf_bind {α β : Type} {x : Except Fault α} {k : α → Except Fault β} {o : Option Fault}
    (h : ∀ a, faultOf (k a) = o) : faultOf (x >>= k) = (faultOf x).or o := by
  cases x with
  | error f => rfl
  | ok a => exact h a

theorem faultOf_map {α β : Type} (x : Except Fault α) (g : α → β) :
    faultOf (x.map g) = faultOf x := by
  cases x <;> rfl

variable (rd : Readers) (r : Record)

/-- No state has the code. -/
def stateFault : Option Fault :=
  if (State.ofCode? r.state).isSome then none else some (.unknownState r.state)

/-- What is wrong with the fields of a record, in the order in which they are read. -/
def checks : List (Option Fault) :=
  [faultOf (rd.digestField "root" r.root),
    faultOf (rd.digestField "messageHash" r.messageHash),
    faultOf (rd.wordField "leafIndex" r.leafIndex),
    faultOf (rd.bytesField "body" r.body),
    faultOf (rd.wordField "gasAtDispatch" r.gasAtDispatch),
    faultOf (rd.wordField "gasAtUpdate" r.gasAtUpdate),
    faultOf (rd.wordField "gasAtRelay" r.gasAtRelay),
    faultOf (rd.wordField "gasAtReceive" r.gasAtReceive),
    faultOf (rd.wordField "gasAtProcess" r.gasAtProcess),
    faultOf (optionalField identifierField "sender" r.sender),
    faultOf (optionalField rd.digestField "tx" r.tx),
    r.stateFault]

/-- The faults of a record in that order. -/
def faults : List Fault := (r.checks rd).reduceOption

theorem head?_reduceOption_cons (o : Option Fault) (os : List (Option Fault)) :
    (o :: os).reduceOption.head? = o.or os.reduceOption.head? := by
  cases o <;> rfl

theorem faultOf_identityBy :
    faultOf (r.identityBy rd) = (faultOf (rd.digestField "root" r.root)).or
      ((faultOf (rd.digestField "messageHash" r.messageHash)).or
        ((faultOf (rd.wordField "leafIndex" r.leafIndex)).or
          (faultOf (rd.bytesField "body" r.body)))) := by
  refine faultOf_bind fun _ => faultOf_bind fun _ => faultOf_bind fun _ => ?_
  exact (faultOf_bind (o := none) fun _ => rfl).trans Option.or_none

theorem faultOf_gasBy :
    faultOf (r.gasBy rd) = (faultOf (rd.wordField "gasAtDispatch" r.gasAtDispatch)).or
      ((faultOf (rd.wordField "gasAtUpdate" r.gasAtUpdate)).or
        ((faultOf (rd.wordField "gasAtRelay" r.gasAtRelay)).or
          ((faultOf (rd.wordField "gasAtReceive" r.gasAtReceive)).or
            (faultOf (rd.wordField "gasAtProcess" r.gasAtProcess))))) := by
  refine faultOf_bind fun _ => faultOf_bind fun _ => faultOf_bind fun _ =>
      faultOf_bind fun _ => ?_
  exact (faultOf_bind (o := none) fun _ => rfl).trans Option.or_none

/-- The first fault of a record is the one that is reported. -/
theorem faultOf_ofRecordBy (net : Network) :
    faultOf (Message.ofRecordBy rd net r) = (r.faults rd).head? := by
  have hread : faultOf (Message.ofRecordBy rd net r) =
      (faultOf (r.identityBy rd)).or ((faultOf (r.gasBy rd)).or
        ((faultOf (optionalField identifierField "sender" r.sender)).or
          ((faultOf (optionalField rd.digestField "tx" r.tx)).or r.stateFault))) := by
    refine faultOf_bind fun _ => faultOf_bind fun _ => faultOf_bind fun _ =>
      faultOf_bind fun _ => ?_
    rw [stateFault]
    cases State.ofCode? r.state <;> rfl
  rw [hread, faultOf_identityBy, faultOf_gasBy]
  simp only [faults, checks, head?_reduceOption_cons, List.reduceOption_nil, List.head?_nil,
    Option.or_assoc, Option.or_none]

/-! ### Records without a fault -/

/-- A field is right if its text can be read. -/
theorem faultOf_mapError {ε α : Type} {x : Except ε α} {f : ε → Fault} :
    faultOf (x.mapError f) = none ↔ ∃ a, x = .ok a := by
  cases x <;> simp [faultOf, Except.mapError]

theorem faultOf_optionalField {α : Type} {read : String → String → Except Fault α} {name : String}
    {P : String → Prop} (h : ∀ s, faultOf (read name s) = none ↔ P s) (field : Option String) :
    faultOf (optionalField read name field) = none ↔ ∀ s ∈ field, P s := by
  cases field with
  | none => simp [optionalField, faultOf]
  | some s => simp [optionalField, faultOf_map, h]

/-- Every text of a record that is looked at can be read, and its code is that of one of the five
states. -/
structure IsReadable : Prop where
  root : ∃ d, rd.digest r.root = .ok d
  messageHash : ∃ d, rd.digest r.messageHash = .ok d
  leafIndex : ∃ w, rd.word r.leafIndex = .ok w
  body : ∃ bs, rd.bytes r.body = .ok bs
  gasAtDispatch : ∃ w, rd.word r.gasAtDispatch = .ok w
  gasAtUpdate : ∃ w, rd.word r.gasAtUpdate = .ok w
  gasAtRelay : ∃ w, rd.word r.gasAtRelay = .ok w
  gasAtReceive : ∃ w, rd.word r.gasAtReceive = .ok w
  gasAtProcess : ∃ w, rd.word r.gasAtProcess = .ok w
  sender : ∀ s ∈ r.sender, Identifier.IsText s
  tx : ∀ s ∈ r.tx, ∃ d, rd.digest s = .ok d
  state : 0 ≤ r.state.toInt ∧ r.state.toInt ≤ 4

/-- The states have the codes from zero to four. -/
theorem isSome_ofCode?_iff {c : Int32} :
    (State.ofCode? c).isSome = true ↔ 0 ≤ c.toInt ∧ c.toInt ≤ 4 := by
  constructor
  · intro h
    obtain ⟨s, hs⟩ := Option.isSome_iff_exists.mp h
    rw [State.ofCode?_eq_some_iff.mp hs]
    cases s <;> decide
  · rintro ⟨hlow, hhigh⟩
    have hc : c = Int32.ofInt c.toInt := (Int32.ofInt_toInt c).symm
    have hcases : c.toInt = 0 ∨ c.toInt = 1 ∨ c.toInt = 2 ∨ c.toInt = 3 ∨ c.toInt = 4 := by omega
    rcases hcases with h | h | h | h | h <;> rw [hc, h] <;> decide

theorem stateFault_eq_none_iff : r.stateFault = none ↔ 0 ≤ r.state.toInt ∧ r.state.toInt ≤ 4 := by
  rw [stateFault, ← isSome_ofCode?_iff]
  split <;> simp_all

/-- A record has no fault if every text can be read. -/
theorem faults_eq_nil_iff : r.faults rd = [] ↔ r.IsReadable rd := by
  have hnil : r.faults rd = [] ↔ ∀ o ∈ r.checks rd, o = none := List.filterMap_eq_nil_iff
  have hdigest {name s : String} : faultOf (rd.digestField name s) = none ↔
      ∃ d, rd.digest s = .ok d := faultOf_mapError
  have hword {name s : String} : faultOf (rd.wordField name s) = none ↔
      ∃ w, rd.word s = .ok w := faultOf_mapError
  have hbytes {name s : String} : faultOf (rd.bytesField name s) = none ↔
      ∃ bs, rd.bytes s = .ok bs := faultOf_mapError
  have hidentifier {name s : String} : faultOf (identifierField name s) = none ↔
      Identifier.IsText s := faultOf_mapError.trans Identifier.isText_iff.symm
  simp only [hnil, checks, List.forall_mem_cons, hdigest, hword, hbytes,
    faultOf_optionalField fun _ => hidentifier, faultOf_optionalField fun _ => hdigest,
    stateFault_eq_none_iff]
  constructor
  · rintro ⟨h₁, h₂, h₃, h₄, h₅, h₆, h₇, h₈, h₉, h₁₀, h₁₁, h₁₂, -⟩
    exact ⟨h₁, h₂, h₃, h₄, h₅, h₆, h₇, h₈, h₉, h₁₀, h₁₁, h₁₂⟩
  · rintro ⟨h₁, h₂, h₃, h₄, h₅, h₆, h₇, h₈, h₉, h₁₀, h₁₁, h₁₂⟩
    exact ⟨h₁, h₂, h₃, h₄, h₅, h₆, h₇, h₈, h₉, h₁₀, h₁₁, h₁₂, List.forall_mem_nil _⟩

/-- The readers in use take a record if each text has the form of its field and the code is that of
a state. -/
theorem isReadable_standard_iff : r.IsReadable .standard ↔
    (Digest.IsText r.root ∧ Digest.IsText r.messageHash ∧ ∀ s ∈ r.tx, Digest.IsText s) ∧
    (∀ s ∈ [r.leafIndex, r.gasAtDispatch, r.gasAtUpdate, r.gasAtRelay, r.gasAtReceive,
      r.gasAtProcess], Word.IsText s) ∧
    Bytes.IsText r.body ∧ (∀ s ∈ r.sender, Identifier.IsText s) ∧
    0 ≤ r.state.toInt ∧ r.state.toInt ≤ 4 := by
  simp only [Digest.isText_iff, Word.isText_iff, Bytes.isText_iff, List.forall_mem_cons]
  constructor
  · intro h
    exact ⟨⟨h.root, h.messageHash, h.tx⟩, ⟨h.leafIndex, h.gasAtDispatch, h.gasAtUpdate,
      h.gasAtRelay, h.gasAtReceive, h.gasAtProcess, List.forall_mem_nil _⟩, h.body, h.sender,
      h.state⟩
  · rintro ⟨⟨hroot, hhash, htx⟩, ⟨hleaf, h₁, h₂, h₃, h₄, h₅, -⟩, hbody, hsender, hstate⟩
    exact ⟨hroot, hhash, hleaf, hbody, h₁, h₂, h₃, h₄, h₅, hsender, htx, hstate⟩

/-- A record taken up as a message and stored again. -/
def renewed (net : Network) : Except Fault Record :=
  (Message.ofRecordBy rd net r).map (ofMessage net)

end Record

namespace Message

theorem exists_of_bind_eq_ok {ε α β : Type} {x : Except ε α} {k : α → Except ε β} {b : β}
    (h : x >>= k = .ok b) : ∃ a, x = .ok a ∧ k a = .ok b := by
  cases x with
  | error f => cases h
  | ok a => exact ⟨a, rfl, h⟩

variable {rd : Record.Readers} {net : Network} {r : Record} {m : Message}

/-- A message that is taken up shows what its body shows under the network. -/
theorem isUnpacked_of_ofRecordBy (h : ofRecordBy rd net r = .ok m) : m.IsUnpacked net := by
  obtain ⟨identity, -, h⟩ := exists_of_bind_eq_ok h
  obtain ⟨gas, -, h⟩ := exists_of_bind_eq_ok h
  obtain ⟨sender, -, h⟩ := exists_of_bind_eq_ok h
  obtain ⟨tx, -, h⟩ := exists_of_bind_eq_ok h
  split at h
  · cases h
  · obtain rfl := Except.ok.inj h
    rfl

/-- A message that was taken up comes back from its own record. -/
theorem ofRecordBy_ofMessage_of_ofRecordBy (hrd : rd.Faithful)
    (h : ofRecordBy rd net r = .ok m) : ofRecordBy rd net (Record.ofMessage net m) = .ok m := by
  rw [ofRecordBy_ofMessage hrd, (isUnpacked_of_ofRecordBy h).repacked_eq]

/-- Whatever the readers take, as long as they read back what is written: a record is taken up as a
message if every text that is looked at can be read and the code is that of a state, otherwise the
first fault in the order of the fields is reported. What is taken up does not depend on the columns
that are computed from others, and comes back from its own record, so that storing it again and once
more stores the same. -/
theorem ofRecordBy_normalizes (hrd : rd.Faithful) (net : Network) (r : Record) :
    ((∃ m, ofRecordBy rd net r = .ok m) ↔ r.IsReadable rd) ∧
    (∀ f, ofRecordBy rd net r = .error f ↔ (r.faults rd).head? = some f) ∧
    (∀ msgType internalSender internalRecipient recipient amount allowFast detailsHash tokenDomain
        tokenId confirmAt,
      ofRecordBy rd net { r with
        msgType, internalSender, internalRecipient, recipient, amount, allowFast, detailsHash,
        tokenDomain, tokenId, confirmAt } = ofRecordBy rd net r) ∧
    (∀ m, ofRecordBy rd net r = .ok m → ofRecordBy rd net (Record.ofMessage net m) = .ok m) ∧
    ∀ r', r.renewed rd net = .ok r' → r'.renewed rd net = .ok r' := by
  have hfault := Record.faultOf_ofRecordBy rd r net
  refine ⟨?_, fun f => ?_, fun _ _ _ _ _ _ _ _ _ _ => rfl,
    fun m hm => ofRecordBy_ofMessage_of_ofRecordBy hrd hm, fun r' hr' => ?_⟩
  · rw [← Record.faultOf_eq_none_iff, hfault, List.head?_eq_none_iff, Record.faults_eq_nil_iff]
  · rw [← Record.faultOf_eq_some_iff, hfault]
  · cases hm : ofRecordBy rd net r with
    | error f => simp [Record.renewed, hm, Except.map] at hr'
    | ok m =>
      obtain rfl : Record.ofMessage net m = r' := by
        simpa [Record.renewed, hm, Except.map] using hr'
      rw [Record.renewed, ofRecordBy_ofMessage_of_ofRecordBy hrd hm]
      rfl

end Message

/-- A record with capitals, without marks, with underscores, with numbers in several bases and with
an identifier between blanks. -/
def Sample.foreignRecord : Record where
  origin := 1
  destination := 2
  nonce := 5
  root := "0x" ++ String.ofList (List.replicate 64 'A')
  messageHash := String.ofList (List.replicate 64 'b')
  leafIndex := "0b1_01"
  body := ""
  dispatchBlock := 7
  dispatchedAt := 100
  updatedAt := 0
  relayedAt := 0
  receivedAt := 0
  processedAt := 0
  sender := some " 0Xa0 "
  tx := none
  state := 3
  msgType := 9
  internalSender := "nobody"
  internalRecipient := ""
  recipient := none
  amount := none
  allowFast := true
  detailsHash := none
  tokenDomain := none
  tokenId := none
  gasAtDispatch := "21_000"
  gasAtUpdate := "0o17"
  gasAtRelay := ""
  gasAtReceive := "_"
  gasAtProcess := "0XfF"
  sent := false
  updated := true
  relayed := false
  received := true
  processed := false
  confirmAt := 1

/-- The readers in use take such a record up, and it comes back from its own record and is stored
the same again. -/
theorem Message.ofRecordBy_normalizes_foreignRecord :
    Record.Readers.standard.Faithful ∧
    ∃ m r', ofRecordBy .standard Sample.network Sample.foreignRecord = .ok m ∧
      ofRecordBy .standard Sample.network (Record.ofMessage Sample.network m) = .ok m ∧
      Sample.foreignRecord.renewed .standard Sample.network = .ok r' ∧
      r'.renewed .standard Sample.network = .ok r' := by
  have hfaithful := Record.Readers.faithful_standard
  obtain ⟨-, -, -, hback, hagain⟩ :=
    ofRecordBy_normalizes hfaithful Sample.network Sample.foreignRecord
  have hread : (ofRecordBy .standard Sample.network Sample.foreignRecord).toOption.isSome =
      true := by
    decide +kernel
  cases hm : ofRecordBy .standard Sample.network Sample.foreignRecord with
  | error f => simp [hm, Except.toOption] at hread
  | ok m =>
    have hrenewed : Sample.foreignRecord.renewed .standard Sample.network =
        .ok (Record.ofMessage Sample.network m) := by
      rw [Record.renewed, hm]
      rfl
    exact ⟨hfaithful, m, _, rfl, hback m hm, hrenewed, hagain _ hrenewed⟩

end Waybill
