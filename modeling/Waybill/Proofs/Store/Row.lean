import Waybill.Store.Row
/-!
# Rows that can be read

A record is stored in a row whose columns are signed, so a number from `2 ^ 63` on turns negative.
Reading a row is looking at its columns of numbers one after another, in a fixed order. The first
column whose number its field cannot hold is reported, and if there is none the numbers are taken
over as they are, so that nothing of the row is lost. In the row of a record only 64-bit numbers can
be reported, and a record comes back from its row exactly if all of them are below that bound.

## Main definitions

* `Record.numbersByName`: the 64-bit numbers of a record with the names of their columns.
* `Record.Fits`: the numbers of a record are those of columns.
* `Row.Column`, `Row.columns`: the columns of numbers in the order in which they are looked at.
* `Row.contents`: a row with its numbers taken over as they are.
* `Row.firstUnfit?`: the column that is reported.

## Main results

* `Row.toRecord_eq`: a row is read as its contents, or its first unfit column is reported.
* `Row.ofRecord_contents`: the contents of a row whose columns all fit have that row.
* `Row.firstUnfit?_ofRecord`: what is reported of the row of a record.
* `Row.toRecord_ofRecord_iff`: when a record comes back from its row.
* `Row.ofRecord_injective`: a row is that of one record only.
* `Row.converts_exactly`: what becomes of records as rows, and of rows as records.
-/

namespace Waybill

namespace Record

/-- The 64-bit numbers of a record. -/
def numbers (r : Record) : List UInt64 :=
  [r.dispatchBlock, r.dispatchedAt, r.updatedAt, r.relayedAt, r.receivedAt, r.processedAt,
    r.confirmAt]

/-- The 64-bit numbers of a record with the names of their columns. -/
def numbersByName (r : Record) : List (String × UInt64) :=
  [("dispatch_block", r.dispatchBlock), ("dispatched_at", r.dispatchedAt),
    ("updated_at", r.updatedAt), ("relayed_at", r.relayedAt), ("received_at", r.receivedAt),
    ("processed_at", r.processedAt), ("confirm_at", r.confirmAt)]

/-- The numbers of a record are not negative as columns. -/
def Fits (r : Record) : Prop := ∀ n ∈ r.numbers, n.toNat < 2 ^ 63

instance (r : Record) : Decidable r.Fits := inferInstanceAs (Decidable (∀ _ ∈ _, _))

end Record

namespace Row

/-! ### Numbers -/

theorem toInt_toInt64 (n : UInt64) :
    n.toInt64.toInt = if n.toNat < 2 ^ 63 then (n.toNat : Int) else n.toNat - 2 ^ 64 := by
  rw [Int64.toInt, UInt64.toBitVec_toInt64, BitVec.toInt_eq_toNat_cond]
  simp only [UInt64.toNat_toBitVec]
  split <;> split <;> omega

theorem toInt_ofUInt32 (n : UInt32) : (ofUInt32 n).toInt = n.toNat :=
  Int64.toInt_ofNat_of_lt (Nat.lt_trans n.toNat_lt (by decide))

theorem ofUInt32_inj {a b : UInt32} : ofUInt32 a = ofUInt32 b ↔ a = b := by
  refine ⟨fun h => ?_, congrArg ofUInt32⟩
  have hint := congrArg Int64.toInt h
  rw [toInt_ofUInt32, toInt_ofUInt32] at hint
  exact UInt32.toNat_inj.mp (by omega)

theorem toInt64_inj {a b : UInt64} : a.toInt64 = b.toInt64 ↔ a = b := by
  refine ⟨fun h => ?_, congrArg UInt64.toInt64⟩
  have hint := congrArg Int64.toInt h
  rw [toInt_toInt64, toInt_toInt64] at hint
  have ha := a.toNat_lt
  have hb := b.toNat_lt
  refine UInt64.toNat_inj.mp ?_
  split at hint <;> split at hint <;> omega

theorem map_ofUInt32_inj {a b : Option UInt32} : a.map ofUInt32 = b.map ofUInt32 ↔ a = b := by
  cases a <;> cases b <;> simp [ofUInt32_inj]

/-! ### Columns -/

/-- A column with a whole number, and how many bits the number of its field has. -/
structure Column where
  name : String
  bits : Nat
  value : Int64

namespace Column

/-- The number of a column can be held by its field. -/
def Fits (c : Column) : Prop := 0 ≤ c.value.toInt ∧ c.value.toInt < 2 ^ c.bits

instance (c : Column) : Decidable c.Fits := inferInstanceAs (Decidable (_ ∧ _))

/-- What is reported of a column. -/
def fault (c : Column) : Record.Fault := .outOfRange c.name c.value

/-- A field of 64 bits can hold the number of a column unless it is negative. -/
theorem fits_iff_nonneg {name : String} {v : Int64} : Fits ⟨name, 64, v⟩ ↔ 0 ≤ v.toInt := by
  have hlt : v.toInt < 2 ^ 64 := Int.lt_trans v.toInt_lt (by decide)
  exact and_iff_left hlt

end Column

/-- The columns of numbers in the order in which they are looked at. An absent number has none. -/
def columns (row : Row) : List Column :=
  [⟨"origin", 32, row.origin⟩, ⟨"destination", 32, row.destination⟩, ⟨"nonce", 32, row.nonce⟩,
    ⟨"dispatch_block", 64, row.dispatchBlock⟩, ⟨"dispatched_at", 64, row.dispatchedAt⟩,
    ⟨"updated_at", 64, row.updatedAt⟩, ⟨"relayed_at", 64, row.relayedAt⟩,
    ⟨"received_at", 64, row.receivedAt⟩, ⟨"processed_at", 64, row.processedAt⟩] ++
  (row.tokenDomain.toList.map (⟨"token_domain", 32, ·⟩) ++
    [⟨"confirm_at", 64, row.confirmAt⟩])

/-- A row with its numbers taken over as they are. -/
def contents (row : Row) : Record where
  origin := .ofNat row.origin.toInt.toNat
  destination := .ofNat row.destination.toInt.toNat
  nonce := .ofNat row.nonce.toInt.toNat
  root := row.root
  messageHash := row.messageHash
  leafIndex := row.leafIndex
  body := row.body
  dispatchBlock := .ofNat row.dispatchBlock.toInt.toNat
  dispatchedAt := .ofNat row.dispatchedAt.toInt.toNat
  updatedAt := .ofNat row.updatedAt.toInt.toNat
  relayedAt := .ofNat row.relayedAt.toInt.toNat
  receivedAt := .ofNat row.receivedAt.toInt.toNat
  processedAt := .ofNat row.processedAt.toInt.toNat
  sender := row.sender
  tx := row.tx
  state := row.state
  msgType := row.msgType
  internalSender := row.internalSender
  internalRecipient := row.internalRecipient
  recipient := row.recipient
  amount := row.amount
  allowFast := row.allowFast
  detailsHash := row.detailsHash
  tokenDomain := row.tokenDomain.map fun v => .ofNat v.toInt.toNat
  tokenId := row.tokenId
  gasAtDispatch := row.gasAtDispatch
  gasAtUpdate := row.gasAtUpdate
  gasAtRelay := row.gasAtRelay
  gasAtReceive := row.gasAtReceive
  gasAtProcess := row.gasAtProcess
  sent := row.sent
  updated := row.updated
  relayed := row.relayed
  received := row.received
  processed := row.processed
  confirmAt := .ofNat row.confirmAt.toInt.toNat

/-! ### Looking at columns -/

/-- Looks at a column. -/
def Column.check (c : Column) : Except Record.Fault Unit :=
  if c.Fits then pure () else throw c.fault

/-- Looks at columns one after another, up to the first that does not fit. -/
def checkAll : List Column → Except Record.Fault Unit
  | [] => pure ()
  | c :: cs => c.check >>= fun _ => checkAll cs

theorem checkAll_append (cs ds : List Column) :
    checkAll (cs ++ ds) = checkAll cs >>= fun _ => checkAll ds := by
  induction cs with
  | nil => rfl
  | cons c cs ih => rw [List.cons_append, checkAll, checkAll, ih, bind_assoc]

/-- The first column that does not fit is reported. -/
theorem checkAll_eq (cs : List Column) : checkAll cs =
    match cs.find? fun c => !decide c.Fits with
    | some c => .error c.fault
    | none => .ok () := by
  induction cs with
  | nil => rfl
  | cons c cs ih =>
    rw [checkAll, Column.check]
    by_cases hc : c.Fits
    · rw [if_pos hc, pure_bind, List.find?_cons_of_neg (by simp [hc]), ih]
    · rw [if_neg hc, List.find?_cons_of_pos (by simp [hc])]
      rfl

theorem small_eq (name : String) (v : Int64) : small name v =
    Column.check ⟨name, 32, v⟩ >>= fun _ => pure (.ofNat v.toInt.toNat) := by
  rw [small, Column.check]
  by_cases h : 0 ≤ v.toInt ∧ v.toInt < 2 ^ 32
  · have hfits : Column.Fits ⟨name, 32, v⟩ := h
    rw [if_pos h, if_pos hfits]
    rfl
  · have hfits : ¬ Column.Fits ⟨name, 32, v⟩ := h
    rw [if_neg h, if_neg hfits]
    rfl

theorem large_eq (name : String) (v : Int64) : large name v =
    Column.check ⟨name, 64, v⟩ >>= fun _ => pure (.ofNat v.toInt.toNat) := by
  rw [large, Column.check]
  by_cases h : 0 ≤ v.toInt
  · rw [if_pos h, if_pos (Column.fits_iff_nonneg.mpr h)]
    rfl
  · rw [if_neg h, if_neg (mt Column.fits_iff_nonneg.mp h)]
    rfl

theorem smallOption_eq (name : String) (v : Option Int64) : smallOption name v =
    checkAll (v.toList.map (⟨name, 32, ·⟩)) >>= fun _ =>
      pure (v.map fun v => .ofNat v.toInt.toNat) := by
  cases v with
  | none => rfl
  | some v =>
    rw [smallOption, small_eq, Option.toList_some, List.map_singleton, checkAll, checkAll,
      bind_assoc]
    cases Column.check ⟨name, 32, v⟩ <;> rfl

/-- Reading a row is looking at its columns. -/
theorem toRecord_eq_checkAll (row : Row) :
    row.toRecord = checkAll row.columns >>= fun _ => pure row.contents := by
  simp only [toRecord, small_eq, large_eq, smallOption_eq, columns, checkAll_append, checkAll,
    bind_assoc, pure_bind]
  rfl

/-- The first column that does not fit. -/
def firstUnfit? (row : Row) : Option Column := row.columns.find? fun c => !decide c.Fits

theorem firstUnfit?_eq_none {row : Row} : row.firstUnfit? = none ↔ ∀ c ∈ row.columns, c.Fits := by
  simp only [firstUnfit?, List.find?_eq_none, Bool.not_eq_true', decide_eq_false_iff_not,
    Classical.not_not]

/-- A row is read as its contents, or its first unfit column is reported. -/
theorem toRecord_eq (row : Row) : row.toRecord =
    match row.firstUnfit? with
    | some c => .error c.fault
    | none => .ok row.contents := by
  rw [toRecord_eq_checkAll, checkAll_eq, ← firstUnfit?]
  cases row.firstUnfit? <;> rfl

theorem toRecord_eq_error {row : Row} {f : Record.Fault} :
    row.toRecord = .error f ↔ ∃ c, row.firstUnfit? = some c ∧ f = c.fault := by
  rw [toRecord_eq]
  cases row.firstUnfit? with
  | none => simp
  | some c => simp [eq_comm]

theorem toRecord_eq_ok {row : Row} {r : Record} :
    row.toRecord = .ok r ↔ row.firstUnfit? = none ∧ r = row.contents := by
  rw [toRecord_eq]
  cases row.firstUnfit? with
  | none => simp [eq_comm]
  | some c => simp

/-! ### The row of the contents -/

section Contents

variable {name : String} {v : Int64}

theorem ofUInt32_of_fits (h : Column.Fits ⟨name, 32, v⟩) : ofUInt32 (.ofNat v.toInt.toNat) = v := by
  have hpos : 0 ≤ v.toInt := h.1
  have hlt : v.toInt < 2 ^ 32 := h.2
  have hsize : v.toInt.toNat < UInt32.size := by
    rw [UInt32.size]
    omega
  refine Int64.toInt_inj.mp ?_
  rw [toInt_ofUInt32, UInt32.toNat_ofNat_of_lt' hsize, Int.toNat_of_nonneg hpos]

theorem toInt64_of_fits (h : Column.Fits ⟨name, 64, v⟩) :
    (UInt64.ofNat v.toInt.toNat).toInt64 = v := by
  have hpos := Column.fits_iff_nonneg.mp h
  have hlt := v.toInt_lt
  have hsize : v.toInt.toNat < UInt64.size := by
    rw [UInt64.size]
    omega
  refine Int64.toInt_inj.mp ?_
  rw [toInt_toInt64, UInt64.toNat_ofNat_of_lt' hsize, if_pos (by omega), Int.toNat_of_nonneg hpos]

end Contents

/-- The contents of a row whose columns all fit have that row. -/
theorem ofRecord_contents {row : Row} (h : ∀ c ∈ row.columns, c.Fits) :
    ofRecord row.contents = row := by
  have hsmall (name : String) {v : Int64} (hmem : (⟨name, 32, v⟩ : Column) ∈ row.columns) :
      ofUInt32 (.ofNat v.toInt.toNat) = v := ofUInt32_of_fits (h _ hmem)
  have hlarge (name : String) {v : Int64} (hmem : (⟨name, 64, v⟩ : Column) ∈ row.columns) :
      (UInt64.ofNat v.toInt.toNat).toInt64 = v := toInt64_of_fits (h _ hmem)
  have hdomain : (row.tokenDomain.map fun v => .ofNat v.toInt.toNat).map ofUInt32 =
      row.tokenDomain := by
    cases hv : row.tokenDomain with
    | none => rfl
    | some v =>
      rw [Option.map_some, Option.map_some,
        hsmall "token_domain" (by simp [columns, hv])]
  rw [ofRecord, contents]
  simp only [hdomain, hsmall "origin" (v := row.origin) (by simp [columns]),
    hsmall "destination" (v := row.destination) (by simp [columns]),
    hsmall "nonce" (v := row.nonce) (by simp [columns]),
    hlarge "dispatch_block" (v := row.dispatchBlock) (by simp [columns]),
    hlarge "dispatched_at" (v := row.dispatchedAt) (by simp [columns]),
    hlarge "updated_at" (v := row.updatedAt) (by simp [columns]),
    hlarge "relayed_at" (v := row.relayedAt) (by simp [columns]),
    hlarge "received_at" (v := row.receivedAt) (by simp [columns]),
    hlarge "processed_at" (v := row.processedAt) (by simp [columns]),
    hlarge "confirm_at" (v := row.confirmAt) (by simp [columns])]

/-! ### The row of a record -/

theorem fits_ofUInt32 (name : String) (n : UInt32) : Column.Fits ⟨name, 32, ofUInt32 n⟩ := by
  have hn := n.toNat_lt
  change 0 ≤ (ofUInt32 n).toInt ∧ (ofUInt32 n).toInt < 2 ^ 32
  rw [toInt_ofUInt32]
  omega

theorem fits_toInt64_iff {name : String} {n : UInt64} :
    Column.Fits ⟨name, 64, n.toInt64⟩ ↔ n.toNat < 2 ^ 63 := by
  have hn := n.toNat_lt
  rw [Column.fits_iff_nonneg, toInt_toInt64]
  split <;> omega

/-- The column of a 64-bit number. -/
def Column.ofNumber (c : String × UInt64) : Column := ⟨c.1, 64, c.2.toInt64⟩

theorem find?_map_ofNumber (cs : List (String × UInt64)) :
    (cs.map Column.ofNumber).find? (fun c => !decide c.Fits) =
      (cs.find? fun c => decide (2 ^ 63 ≤ c.2.toNat)).map Column.ofNumber := by
  rw [List.find?_map]
  congr 2
  funext c
  rw [Function.comp_apply, Column.ofNumber, decide_eq_decide.mpr fits_toInt64_iff, ← decide_not,
    decide_eq_decide.mpr Nat.not_lt]

/-- In the row of a record the first unfit column is that of the first number that turned
negative. -/
theorem firstUnfit?_ofRecord (r : Record) : (ofRecord r).firstUnfit? =
    (r.numbersByName.find? fun c => decide (2 ^ 63 ≤ c.2.toNat)).map Column.ofNumber := by
  have hsmall (cs : List (String × UInt32)) :
      (cs.map fun c => (⟨c.1, 32, ofUInt32 c.2⟩ : Column)).find? (fun c => !decide c.Fits) =
        none := by
    rw [List.find?_eq_none]
    intro c hc
    obtain ⟨d, -, rfl⟩ := List.mem_map.mp hc
    simp [fits_ofUInt32]
  have hcolumns : (ofRecord r).columns =
      ([("origin", r.origin), ("destination", r.destination), ("nonce", r.nonce)].map
        fun c => ⟨c.1, 32, ofUInt32 c.2⟩) ++
      ((r.numbersByName.take 6).map Column.ofNumber ++
        (((r.tokenDomain.toList.map fun n => ("token_domain", n)).map
          fun c => ⟨c.1, 32, ofUInt32 c.2⟩) ++
          (r.numbersByName.drop 6).map Column.ofNumber)) := by
    cases h : r.tokenDomain <;> simp [columns, ofRecord, h] <;> rfl
  rw [firstUnfit?, hcolumns, List.find?_append, List.find?_append, List.find?_append, hsmall,
    hsmall, find?_map_ofNumber, find?_map_ofNumber, Option.none_or, Option.none_or,
    ← Option.map_or, ← List.find?_append, List.take_append_drop]

theorem fits_iff {r : Record} : r.Fits ↔ ∀ c ∈ r.numbersByName, c.2.toNat < 2 ^ 63 := by
  have hnumbers : r.numbers = r.numbersByName.map (·.2) := rfl
  rw [Record.Fits, hnumbers, List.forall_mem_map]

theorem firstUnfit?_ofRecord_eq_none {r : Record} :
    (ofRecord r).firstUnfit? = none ↔ r.Fits := by
  rw [firstUnfit?_ofRecord, Option.map_eq_none_iff, List.find?_eq_none, fits_iff]
  simp only [decide_eq_true_eq, Nat.not_le]

/-- A row is that of one record only, whether it can be read or not. -/
theorem ofRecord_injective {r r' : Record} (h : ofRecord r = ofRecord r') : r = r' := by
  cases r
  cases r'
  simp only [ofRecord, mk.injEq, ofUInt32_inj, toInt64_inj, map_ofUInt32_inj] at h
  simp only [h]

/-- The contents of the row of a record are the record, if its numbers fit. -/
theorem contents_ofRecord {r : Record} (h : r.Fits) : (ofRecord r).contents = r := by
  refine ofRecord_injective (ofRecord_contents (firstUnfit?_eq_none.mp ?_))
  exact firstUnfit?_ofRecord_eq_none.mpr h

/-- What is read from the row of a record is the record. -/
theorem toRecord_ofRecord_iff {r r' : Record} :
    (ofRecord r).toRecord = .ok r' ↔ r.Fits ∧ r' = r := by
  rw [toRecord_eq_ok, firstUnfit?_ofRecord_eq_none]
  exact and_congr_right fun h => by rw [contents_ofRecord h]

/-- The number of a column that turned negative. -/
theorem toInt_toInt64_of_le {n : UInt64} (h : 2 ^ 63 ≤ n.toNat) :
    n.toInt64.toInt = (n.toNat : Int) - 2 ^ 64 := by
  rw [toInt_toInt64, if_neg (Nat.not_lt.mpr h)]

/-- What is reported of the row of a record. -/
theorem toRecord_ofRecord_eq_error {r : Record} {f : Record.Fault} :
    (ofRecord r).toRecord = .error f ↔ ∃ name n v,
      r.numbersByName.find? (fun c => decide (2 ^ 63 ≤ c.2.toNat)) = some (name, n) ∧
        v.toInt = (n.toNat : Int) - 2 ^ 64 ∧ f = .outOfRange name v := by
  have hlarge {name : String} {n : UInt64}
      (hfind : r.numbersByName.find? (fun c => decide (2 ^ 63 ≤ c.2.toNat)) = some (name, n)) :
      n.toInt64.toInt = (n.toNat : Int) - 2 ^ 64 :=
    toInt_toInt64_of_le (by simpa using List.find?_some hfind)
  rw [toRecord_eq_error, firstUnfit?_ofRecord]
  constructor
  · rintro ⟨c, hc, rfl⟩
    obtain ⟨⟨name, n⟩, hfind, rfl⟩ := Option.map_eq_some_iff.mp hc
    exact ⟨name, n, n.toInt64, hfind, hlarge hfind, rfl⟩
  · rintro ⟨name, n, v, hfind, hv, rfl⟩
    obtain rfl : v = n.toInt64 := Int64.toInt_inj.mp (hv.trans (hlarge hfind).symm)
    exact ⟨_, by rw [hfind, Option.map_some], rfl⟩

/-! ### Both ways -/

/-- A record comes back from its row exactly if its 64-bit numbers are below the bound of columns.
Otherwise the first one that is not is reported, by the name of its column and as the negative
number that it has become. A row is read exactly if all its columns fit, and then it is the row of
what is read. Otherwise its first column that does not fit is reported, with its number. -/
theorem converts_exactly :
    (∀ r : Record,
      ((ofRecord r).toRecord = .ok r ↔ ∀ c ∈ r.numbersByName, c.2.toNat < 2 ^ 63) ∧
      ∀ f, (ofRecord r).toRecord = .error f ↔ ∃ name n v,
        r.numbersByName.find? (fun c => decide (2 ^ 63 ≤ c.2.toNat)) = some (name, n) ∧
          v.toInt = (n.toNat : Int) - 2 ^ 64 ∧ f = .outOfRange name v) ∧
    ∀ row : Row,
      ((∃ r, row.toRecord = .ok r) ↔ ∀ c ∈ row.columns, c.Fits) ∧
      (∀ r, row.toRecord = .ok r → ofRecord r = row) ∧
      ∀ f, row.toRecord = .error f ↔ ∃ c,
        row.columns.find? (fun c => !decide c.Fits) = some c ∧ f = .outOfRange c.name c.value := by
  refine ⟨fun r => ⟨?_, fun f => ?_⟩, fun row => ⟨?_, fun r hr => ?_, fun f => ?_⟩⟩
  · rw [toRecord_ofRecord_iff, fits_iff, eq_self_iff_true, and_true]
  · exact toRecord_ofRecord_eq_error
  · simp only [toRecord_eq_ok, firstUnfit?_eq_none, exists_and_left, exists_eq, and_true]
  · obtain ⟨hfits, rfl⟩ := toRecord_eq_ok.mp hr
    exact ofRecord_contents (firstUnfit?_eq_none.mp hfits)
  · exact toRecord_eq_error

end Row

end Waybill
