import Swf.Proofs.Abc.Codec

/-!
# Code that goes on

What bytes decode to does not depend on what stands around them. Where an operation can be read it
is read from bytes of its own (`CodeReader.Reads`), whatever comes behind them. Where it can not,
either the code is **cut short** in the operand, and then some more bytes complete it
(`CodeReader.CutShort`), or its first byte is no opcode, and then no more bytes help.

One of the three happens in front of any code, so all code can be taken apart operation by operation
until it is used up or one of the two failures is reached (`code_induction`). What decoding gives
follows case by case: behind code that decodes, other code decodes as it does alone, its errors
moved (`decodeOps_append`), and each of the two errors tells which of the two failures it was.
-/

namespace Swf.Abc

open CodeReader

/-! ## Operands -/

namespace CodeReader

variable {α β : Type}

/-- The code ends before `m` has all that it reads, `place` bytes on. With some more bytes it would
have. -/
structure CutShort (m : CodeReader α) (code : List UInt8) (place : Nat) : Prop where
  /-- The place is named, counted from wherever the code starts. -/
  fails : ∀ offset, ∃ c', m ⟨code, offset⟩ = .error (.truncated (offset + place)) c'
  /-- It is a place in the code, or its end. -/
  le_length : place ≤ code.length
  /-- Some more bytes complete it. -/
  completes : ∃ more a, Reads m (code ++ more) a

/-- `m` fails on no code but what is cut short. -/
def Operand (m : CodeReader α) : Prop :=
  ∀ code, (∃ bytes rest a, code = bytes ++ rest ∧ Reads m bytes a) ∨ ∃ place, CutShort m code place

theorem CutShort.map {m : CodeReader α} {code : List UInt8} {place : Nat} (f : α → β)
    (h : CutShort m code place) : CutShort (f <$> m) code place where
  fails offset := by
    obtain ⟨c', hfails⟩ := h.fails offset
    exact ⟨c', map_of_error hfails⟩
  le_length := h.le_length
  completes := by
    obtain ⟨more, a, hreads⟩ := h.completes
    exact ⟨more, f a, hreads.map f⟩

theorem Operand.pure (a : α) : Operand (pure a) :=
  fun code => .inl ⟨[], code, a, rfl, Reads.pure a⟩

theorem Operand.map {m : CodeReader α} (f : α → β) (h : Operand m) : Operand (f <$> m) := by
  intro code
  rcases h code with ⟨bytes, rest, a, hcode, hreads⟩ | ⟨place, hcut⟩
  · exact .inl ⟨bytes, rest, f a, hcode, hreads.map f⟩
  · exact .inr ⟨place, hcut.map f⟩

theorem Operand.takeByte : Operand takeByte := by
  intro code
  cases code with
  | nil => exact .inr ⟨0, fun _ => ⟨_, rfl⟩, Nat.le_refl 0, [0], 0, Reads.takeByte 0⟩
  | cons b rest => exact .inl ⟨[b], rest, b, rfl, Reads.takeByte b⟩

/-- Of three bytes none is taken if one is missing, so the error names the first of them. -/
theorem Operand.takeTriple : Operand takeTriple := by
  intro code
  match code with
  | [] => exact .inr ⟨0, fun _ => ⟨_, rfl⟩, Nat.zero_le _, [0, 0, 0], _, Reads.takeTriple 0 0 0⟩
  | [a] => exact .inr ⟨0, fun _ => ⟨_, rfl⟩, Nat.zero_le _, [0, 0], _, Reads.takeTriple a 0 0⟩
  | [a, b] => exact .inr ⟨0, fun _ => ⟨_, rfl⟩, Nat.zero_le _, [0], _, Reads.takeTriple a b 0⟩
  | a :: b :: c :: rest => exact .inl ⟨[a, b, c], rest, _, rfl, Reads.takeTriple a b c⟩

end CodeReader

/-- A number that is cut short names the end of the code. -/
theorem Varint.operand_readNat (bound : Nat) : Operand (Varint.readNat bound) := by
  induction bound with
  | zero => exact Operand.pure 0
  | succ bound ih =>
    intro code
    cases code with
    | nil =>
      exact .inr ⟨0, fun _ => ⟨_, rfl⟩, Nat.le_refl 0, [0], 0,
        Varint.reads_readNat_last bound (by decide)⟩
    | cons b rest =>
      by_cases hlast : b.toNat < 128
      · exact .inl ⟨[b], rest, b.toNat, rfl, Varint.reads_readNat_last bound hlast⟩
      · -- the byte says that more follow, and they decide
        rcases ih rest with ⟨bytes, rest', n, rfl, hreads⟩ | ⟨place, hcut⟩
        · exact .inl ⟨b :: bytes, rest', _, rfl, Varint.reads_readNat_more hlast hreads⟩
        · obtain ⟨more, n, hreads⟩ := hcut.completes
          refine .inr ⟨place + 1, fun offset => ?_, Nat.succ_le_succ hcut.le_length, more, _,
            Varint.reads_readNat_more hlast hreads⟩
          obtain ⟨c', hfails⟩ := hcut.fails (offset + 1)
          refine ⟨c', ?_⟩
          have hbyte : takeByte ⟨b :: rest, offset⟩ = .ok b ⟨rest, offset + 1⟩ := rfl
          rw [Varint.readNat, bind_of_ok hbyte, if_neg hlast, bind_of_error hfails,
            Nat.add_right_comm, Nat.add_assoc]

theorem Layout.operand_read (layout : Layout) : Operand layout.read := by
  have hvarint : Operand Varint.read := (Varint.operand_readNat 5).map UInt32.ofNat
  cases layout with
  | whole op => exact Operand.pure op
  | branch kind => exact Operand.takeTriple.map _
  | byte => exact Operand.takeByte.map _
  | short => exact hvarint.map _
  | pooled kind => exact hvarint.map _
  | getLocal => exact hvarint.map _
  | setLocal => exact hvarint.map _

/-! ## One operation -/

/-- A byte that operations start with. -/
def IsOpcode (opcode : UInt8) : Prop := ∃ op : Op, op.encode.head? = some opcode

/-- An operation under each entry of the table. -/
def Layout.sample : Layout → Op
  | .whole op => op
  | .branch kind => .branch kind 0
  | .byte => .push (.byte 0)
  | .short => .push (.short 0)
  | .pooled kind => .pushPooled kind 0
  | .getLocal => .getLocal 4
  | .setLocal => .setLocal 4

theorem encode_sample :
    ∀ entry ∈ layouts, entry.2.sample.encode.head? = some entry.1 := by decide

theorem readOp_of_lookup_eq_none {opcode : UInt8} (h : layouts.lookup opcode = none)
    (rest : List UInt8) (offset : Nat) :
    readOp ⟨opcode :: rest, offset⟩ =
      .error (.unknownOpcode opcode offset) ⟨rest, offset + 1⟩ := by
  simp only [readOp, takeByte, h]

/-- The table has the bytes that operations start with, and no other ones. -/
theorem lookup_eq_none_iff {opcode : UInt8} :
    layouts.lookup opcode = none ↔ ¬ IsOpcode opcode := by
  constructor
  · rintro hnone ⟨op, hhead⟩
    by_cases hrange : op.InRange
    · -- the operation is read back from its bytes
      obtain ⟨operand, hbytes⟩ := List.head?_eq_some_iff.mp hhead
      have hreads := Op.reads_encode hrange [] 0
      rw [hbytes, List.append_nil, readOp_of_lookup_eq_none hnone] at hreads
      cases hreads
    · -- its first byte is that of any other branch
      cases op with
      | branch kind offset =>
        obtain rfl : kind.opcode = opcode := Option.some.inj hhead
        cases kind <;> exact absurd hnone (by decide)
      | _ => exact absurd trivial hrange
  · intro hno
    cases hlookup : layouts.lookup opcode with
    | none => rfl
    | some layout =>
      obtain ⟨_, _, hlayouts, -⟩ := List.lookup_eq_some_iff.mp hlookup
      have hmem : (opcode, layout) ∈ layouts := by rw [hlayouts]; simp
      exact absurd ⟨layout.sample, encode_sample _ hmem⟩ hno

theorem cutShort_readOp {opcode : UInt8} {layout : Layout} {operand : List UInt8} {place : Nat}
    (hlookup : layouts.lookup opcode = some layout) (h : CutShort layout.read operand place) :
    CutShort readOp (opcode :: operand) (place + 1) where
  fails offset := by
    obtain ⟨c', hfails⟩ := h.fails (offset + 1)
    refine ⟨c', ?_⟩
    simp only [readOp, takeByte, hlookup, hfails]
    rw [Nat.add_right_comm, Nat.add_assoc]
  le_length := Nat.succ_le_succ h.le_length
  completes := by
    obtain ⟨more, op, hreads⟩ := h.completes
    exact ⟨more, op, reads_readOp layout hlookup hreads⟩

/-- No operation is read from nothing. -/
theorem ne_nil_of_reads {bytes : List UInt8} {op : Op} (h : Reads readOp bytes op) :
    bytes ≠ [] := by
  rintro rfl
  exact absurd (length_lt_of_readOp (h [] 0)) (by simp)

/-- **One operation.** In front of any code stands an operation, or one that is cut short, or a byte
that is no opcode. -/
theorem readOp_cases (opcode : UInt8) (rest : List UInt8) :
    (∃ bytes rest' op, opcode :: rest = bytes ++ rest' ∧ Reads readOp bytes op) ∨
      (∃ place, CutShort readOp (opcode :: rest) place) ∨ ¬ IsOpcode opcode := by
  cases hlookup : layouts.lookup opcode with
  | none => exact .inr (.inr (lookup_eq_none_iff.mp hlookup))
  | some layout =>
    rcases layout.operand_read rest with ⟨operand, rest', op, rfl, hreads⟩ | ⟨place, hcut⟩
    · exact .inl ⟨opcode :: operand, rest', op, rfl, reads_readOp layout hlookup hreads⟩
    · exact .inr (.inl ⟨place + 1, cutShort_readOp hlookup hcut⟩)

/-- An operation that was read was read from bytes of its own. -/
theorem reads_of_readOp {c c' : Cursor} {op : Op} (h : readOp c = .ok op c') :
    ∃ bytes, bytes ≠ [] ∧ c = ⟨bytes ++ c'.rest, c.offset⟩ ∧
      c'.offset = c.offset + bytes.length := by
  obtain ⟨code, offset⟩ := c
  cases code with
  | nil => cases h
  | cons opcode rest =>
    rcases readOp_cases opcode rest with ⟨bytes, rest', op', hcode, hreads⟩ | ⟨place, hcut⟩ | hno
    · rw [hcode, hreads] at h
      cases h
      exact ⟨bytes, ne_nil_of_reads hreads, by rw [hcode], rfl⟩
    · obtain ⟨c₁, hfails⟩ := hcut.fails offset
      rw [hfails] at h
      cases h
    · rw [readOp_of_lookup_eq_none (lookup_eq_none_iff.mpr hno)] at h
      cases h

/-! ## All of the code -/

/-- An induction over code: over its operations, up to its end or to the operation that can not be
read. -/
theorem code_induction {P : List UInt8 → Prop} (nil : P [])
    (op : ∀ bytes rest op, Reads readOp bytes op → P rest → P (bytes ++ rest))
    (cutShort : ∀ code place, CutShort readOp code place → code ≠ [] → P code)
    (unknown : ∀ opcode rest, ¬ IsOpcode opcode → P (opcode :: rest)) (code : List UInt8) :
    P code := by
  induction hlen : code.length using Nat.strongRecOn generalizing code with
  | ind n ih =>
    subst hlen
    cases code with
    | nil => exact nil
    | cons opcode rest =>
      rcases readOp_cases opcode rest with ⟨bytes, rest', op', hcode, hreads⟩ | ⟨place, hcut⟩ | hno
      · have hpos := List.length_pos_iff.mpr (ne_nil_of_reads hreads)
        have hshorter : rest'.length < (opcode :: rest).length := by
          rw [hcode, List.length_append]
          omega
        rw [hcode]
        exact op bytes rest' op' hreads (ih _ hshorter rest' rfl)
      · exact cutShort _ place hcut (List.cons_ne_nil _ _)
      · exact unknown opcode rest hno

/-- The error of code that stands `n` bytes further on. -/
def AbcError.moved (n : Nat) : AbcError → AbcError
  | .unknownOpcode opcode offset => .unknownOpcode opcode (offset + n)
  | .truncated offset => .truncated (offset + n)
  | err => err

/-- What code decodes to behind `n` bytes that are `ops`, by what it decodes to alone. -/
def behind (ops : List Op) (n : Nat) : Except AbcError (List Op) → Except AbcError (List Op)
  | .ok more => .ok (ops ++ more)
  | .error err => .error (err.moved n)

theorem AbcError.moved_zero (err : AbcError) : err.moved 0 = err := by cases err <;> rfl

theorem AbcError.moved_moved (err : AbcError) (m n : Nat) :
    (err.moved m).moved n = err.moved (n + m) := by
  cases err <;> simp [moved, Nat.add_assoc, Nat.add_comm n m]

theorem behind_nil (result : Except AbcError (List Op)) : behind [] 0 result = result := by
  cases result with
  | ok more => rfl
  | error err => rw [behind, AbcError.moved_zero]

theorem behind_behind (ops ops' : List Op) (m n : Nat) (result : Except AbcError (List Op)) :
    behind ops n (behind ops' m result) = behind (ops ++ ops') (n + m) result := by
  cases result with
  | ok more => simp only [behind, List.append_assoc]
  | error err => simp only [behind, AbcError.moved_moved]

section behind

variable {ops all : List Op} {n place : Nat} {opcode : UInt8} {result : Except AbcError (List Op)}

theorem behind_eq_ok (h : behind ops n result = .ok all) :
    ∃ more, result = .ok more ∧ all = ops ++ more := by
  cases result with
  | ok more => exact ⟨more, rfl, (Except.ok.inj h).symm⟩
  | error err => cases h

theorem behind_eq_truncated (h : behind ops n result = .error (.truncated place)) :
    ∃ place', result = .error (.truncated place') ∧ place = place' + n := by
  cases result with
  | ok more => cases h
  | error err =>
    cases err with
    | truncated place' =>
      cases h
      exact ⟨place', rfl, rfl⟩
    | _ => cases h

theorem behind_eq_unknown (h : behind ops n result = .error (.unknownOpcode opcode place)) :
    ∃ place', result = .error (.unknownOpcode opcode place') ∧ place = place' + n := by
  cases result with
  | ok more => cases h
  | error err =>
    cases err with
    | unknownOpcode opcode' place' =>
      cases h
      exact ⟨place', rfl, rfl⟩
    | _ => cases h

end behind

/-! ### Decoding, case by case -/

/-- What the code ahead decodes to. `done` holds the operations before, the last one first. -/
def decodeFrom (done : List Op) (c : Cursor) : Except AbcError (List Op) :=
  match readOps done c with
  | .ok ops _ => .ok ops
  | .error err _ => .error err

theorem decodeFrom_of_ok {c c' : Cursor} {op : Op} (h : readOp c = .ok op c') (done : List Op) :
    decodeFrom done c = decodeFrom (op :: done) c' := by
  unfold decodeFrom
  rw [readOps_of_ok h]

theorem decodeFrom_of_error {c c' : Cursor} {err : AbcError} (hmore : c.rest ≠ [])
    (h : readOp c = .error err c') (done : List Op) : decodeFrom done c = .error err := by
  have hread : readOps done c = .error err c' := by
    rw [readOps, if_neg hmore]
    split
    · next op c₁ h' =>
      rw [h] at h'
      cases h'
    · next err' c₁ h' =>
      rw [h] at h'
      cases h'
      rfl
  unfold decodeFrom
  rw [hread]

/-- Neither the place that code stands at nor the operations before it matter, but for being
there. -/
theorem decodeFrom_eq (code : List UInt8) (done : List Op) (offset : Nat) :
    decodeFrom done ⟨code, offset⟩ = behind done.reverse offset (decodeOps code) := by
  induction code using code_induction generalizing done offset with
  | nil =>
    have hend : ∀ done offset, decodeFrom done ⟨[], offset⟩ = .ok done.reverse := by
      intro done offset
      unfold decodeFrom
      rw [readOps, if_pos rfl]
    show _ = behind _ _ (decodeFrom [] ⟨[], 0⟩)
    rw [hend, hend, behind, List.reverse_nil, List.append_nil]
  | op bytes rest op hreads ih =>
    show _ = behind _ _ (decodeFrom [] ⟨bytes ++ rest, 0⟩)
    rw [decodeFrom_of_ok (hreads rest offset), decodeFrom_of_ok (hreads rest 0), ih, ih,
      behind_behind, List.reverse_cons, List.reverse_singleton, Nat.zero_add]
  | cutShort code place hcut hmore =>
    show _ = behind _ _ (decodeFrom [] ⟨code, 0⟩)
    obtain ⟨c, hfails⟩ := hcut.fails offset
    obtain ⟨c₀, hfails₀⟩ := hcut.fails 0
    rw [decodeFrom_of_error hmore hfails, decodeFrom_of_error hmore hfails₀, behind,
      AbcError.moved, Nat.zero_add, Nat.add_comm]
  | unknown opcode rest hno =>
    show _ = behind _ _ (decodeFrom [] ⟨opcode :: rest, 0⟩)
    have hfails := readOp_of_lookup_eq_none (lookup_eq_none_iff.mpr hno) rest
    rw [decodeFrom_of_error (List.cons_ne_nil _ _) (hfails offset),
      decodeFrom_of_error (List.cons_ne_nil _ _) (hfails 0), behind, AbcError.moved, Nat.zero_add]

@[simp] theorem decodeOps_nil : decodeOps [] = .ok [] := by
  unfold decodeOps
  rw [readOps, if_pos rfl]
  rfl

theorem decodeOps_of_reads {bytes : List UInt8} {op : Op} (h : Reads readOp bytes op)
    (rest : List UInt8) :
    decodeOps (bytes ++ rest) = behind [op] bytes.length (decodeOps rest) := by
  show decodeFrom [] ⟨bytes ++ rest, 0⟩ = _
  rw [decodeFrom_of_ok (h rest 0), decodeFrom_eq, List.reverse_singleton, Nat.zero_add]

theorem decodeOps_of_cutShort {code : List UInt8} {place : Nat} (h : CutShort readOp code place)
    (hmore : code ≠ []) : decodeOps code = .error (.truncated place) := by
  obtain ⟨c, hfails⟩ := h.fails 0
  rw [Nat.zero_add] at hfails
  exact decodeFrom_of_error hmore hfails []

theorem decodeOps_of_unknown {opcode : UInt8} (h : ¬ IsOpcode opcode) (rest : List UInt8) :
    decodeOps (opcode :: rest) = .error (.unknownOpcode opcode 0) :=
  decodeFrom_of_error (List.cons_ne_nil _ _)
    (readOp_of_lookup_eq_none (lookup_eq_none_iff.mpr h) rest 0) []

/-! ### What decoding says -/

/-- **Composition.** Code behind code that decodes. -/
theorem decodeOps_append {a : List UInt8} {ops : List Op} (h : decodeOps a = .ok ops)
    (b : List UInt8) : decodeOps (a ++ b) = behind ops a.length (decodeOps b) := by
  induction a using code_induction generalizing ops with
  | nil =>
    rw [decodeOps_nil] at h
    cases h
    exact (behind_nil _).symm
  | op bytes rest op hreads ih =>
    rw [decodeOps_of_reads hreads] at h
    obtain ⟨more, hrest, rfl⟩ := behind_eq_ok h
    rw [List.append_assoc, decodeOps_of_reads hreads, ih hrest, behind_behind, List.length_append]
  | cutShort code place hcut hmore =>
    rw [decodeOps_of_cutShort hcut hmore] at h
    cases h
  | unknown opcode rest hno =>
    rw [decodeOps_of_unknown hno] at h
    cases h

/-- Decoding ends in one of three ways on any code, after no more operations than bytes. -/
theorem decodeOps_cases (code : List UInt8) :
    (∃ ops, decodeOps code = .ok ops ∧ ops.length ≤ code.length) ∨
      (∃ place ≤ code.length, decodeOps code = .error (.truncated place)) ∨
        ∃ opcode, ∃ place < code.length, decodeOps code = .error (.unknownOpcode opcode place) := by
  induction code using code_induction with
  | nil => exact .inl ⟨[], decodeOps_nil, Nat.le_refl 0⟩
  | op bytes rest op hreads ih =>
    have hpos := List.length_pos_iff.mpr (ne_nil_of_reads hreads)
    rw [decodeOps_of_reads hreads, List.length_append]
    rcases ih with ⟨ops, hops, hlen⟩ | ⟨place, hplace, hrest⟩ | ⟨opcode, place, hplace, hrest⟩
    · exact .inl ⟨op :: ops, by rw [hops]; rfl, by rw [List.length_cons]; omega⟩
    · exact .inr (.inl ⟨place + bytes.length, by omega, by rw [hrest]; rfl⟩)
    · exact .inr (.inr ⟨opcode, place + bytes.length, by omega, by rw [hrest]; rfl⟩)
  | cutShort code place hcut hmore =>
    exact .inr (.inl ⟨place, hcut.le_length, decodeOps_of_cutShort hcut hmore⟩)
  | unknown opcode rest hno =>
    exact .inr (.inr ⟨opcode, 0, by simp, decodeOps_of_unknown hno rest⟩)

/-- What is cut short is completed by some more bytes. -/
theorem exists_decodeOps_append {code : List UInt8} {place : Nat}
    (h : decodeOps code = .error (.truncated place)) :
    ∃ more ops, decodeOps (code ++ more) = .ok ops := by
  induction code using code_induction generalizing place with
  | nil =>
    rw [decodeOps_nil] at h
    cases h
  | op bytes rest op hreads ih =>
    rw [decodeOps_of_reads hreads] at h
    obtain ⟨place', hrest, -⟩ := behind_eq_truncated h
    obtain ⟨more, ops, hmore⟩ := ih hrest
    exact ⟨more, op :: ops, by rw [List.append_assoc, decodeOps_of_reads hreads, hmore]; rfl⟩
  | cutShort code place hcut hmore =>
    obtain ⟨more, op, hreads⟩ := hcut.completes
    refine ⟨more, [op], ?_⟩
    rw [← List.append_nil (code ++ more), decodeOps_of_reads hreads, decodeOps_nil]
    rfl
  | unknown opcode rest hno =>
    rw [decodeOps_of_unknown hno] at h
    cases h

/-- The byte that is no opcode stands behind code that decodes. -/
theorem of_decodeOps_unknown {code : List UInt8} {opcode : UInt8} {place : Nat}
    (h : decodeOps code = .error (.unknownOpcode opcode place)) :
    (∃ ops, decodeOps (code.take place) = .ok ops) ∧ code[place]? = some opcode ∧
      ¬ IsOpcode opcode := by
  induction code using code_induction generalizing place with
  | nil =>
    rw [decodeOps_nil] at h
    cases h
  | op bytes rest op hreads ih =>
    rw [decodeOps_of_reads hreads] at h
    obtain ⟨place', hrest, rfl⟩ := behind_eq_unknown h
    obtain ⟨⟨ops, hops⟩, hbyte, hno⟩ := ih hrest
    refine ⟨⟨op :: ops, ?_⟩, ?_, hno⟩
    · rw [Nat.add_comm, List.take_length_add_append, decodeOps_of_reads hreads, hops]
      rfl
    · rwa [Nat.add_comm, List.getElem?_append_right (Nat.le_add_right _ _),
        Nat.add_sub_cancel_left]
  | cutShort code place' hcut hmore =>
    rw [decodeOps_of_cutShort hcut hmore] at h
    cases h
  | unknown opcode' rest hno =>
    rw [decodeOps_of_unknown hno] at h
    cases h
    exact ⟨⟨[], decodeOps_nil⟩, rfl, hno⟩

theorem decodeOps_eq_unknown_iff {code : List UInt8} {opcode : UInt8} {place : Nat} :
    decodeOps code = .error (.unknownOpcode opcode place) ↔
      (∃ ops, decodeOps (code.take place) = .ok ops) ∧ code[place]? = some opcode ∧
        ¬ IsOpcode opcode := by
  refine ⟨of_decodeOps_unknown, ?_⟩
  rintro ⟨⟨ops, hops⟩, hbyte, hno⟩
  obtain ⟨hlt, hget⟩ := List.getElem?_eq_some_iff.mp hbyte
  have hdrop : code.drop place = opcode :: code.drop (place + 1) := by
    rw [List.drop_eq_getElem_cons hlt, hget]
  have hlen : (code.take place).length = place := List.length_take_of_le (Nat.le_of_lt hlt)
  rw [← List.take_append_drop place code, decodeOps_append hops, hdrop, decodeOps_of_unknown hno,
    hlen, behind, AbcError.moved, Nat.zero_add]

/-- No more bytes help against a byte that is no opcode. -/
theorem decodeOps_append_of_unknown {code : List UInt8} {opcode : UInt8} {place : Nat}
    (h : decodeOps code = .error (.unknownOpcode opcode place)) (more : List UInt8) :
    decodeOps (code ++ more) = .error (.unknownOpcode opcode place) := by
  obtain ⟨hops, hbyte, hno⟩ := decodeOps_eq_unknown_iff.mp h
  obtain ⟨hlt, -⟩ := List.getElem?_eq_some_iff.mp hbyte
  refine decodeOps_eq_unknown_iff.mpr ⟨?_, ?_, hno⟩
  · rwa [List.take_append_of_le_length (Nat.le_of_lt hlt)]
  · rwa [List.getElem?_append_left hlt]

theorem decodeOps_eq_truncated_iff {code : List UInt8} :
    (∃ place, decodeOps code = .error (.truncated place)) ↔
      (∀ ops, decodeOps code ≠ .ok ops) ∧ ∃ more ops, decodeOps (code ++ more) = .ok ops := by
  constructor
  · rintro ⟨place, h⟩
    refine ⟨fun ops hok => ?_, exists_decodeOps_append h⟩
    rw [h] at hok
    cases hok
  · rintro ⟨hfails, more, ops, hmore⟩
    rcases decodeOps_cases code with ⟨ops', hok, -⟩ | ⟨place, -, h⟩ | ⟨opcode, place, -, h⟩
    · exact absurd hok (hfails ops')
    · exact ⟨place, h⟩
    · rw [decodeOps_append_of_unknown h] at hmore
      cases hmore

/-- **Code piece by piece.** Behind code that decodes, code decodes as it does alone, its errors
moved. Decoding fails as truncated just where some more bytes would decode, and for an unknown
opcode just where a byte that no operation starts with stands behind code that decodes; then it
fails so whatever comes. Each operation takes at least a byte and none behind the end, so decoding
ends on any code, in one of these ways. -/
theorem decodeOps_piecewise :
    (∀ (a b : List UInt8) (ops : List Op), decodeOps a = .ok ops →
      decodeOps (a ++ b) = behind ops a.length (decodeOps b)) ∧
    (∀ code, (∃ place, decodeOps code = .error (.truncated place)) ↔
      (∀ ops, decodeOps code ≠ .ok ops) ∧ ∃ more ops, decodeOps (code ++ more) = .ok ops) ∧
    (∀ code opcode place, decodeOps code = .error (.unknownOpcode opcode place) ↔
      (∃ ops, decodeOps (code.take place) = .ok ops) ∧ code[place]? = some opcode ∧
        ¬ IsOpcode opcode) ∧
    (∀ code opcode place, decodeOps code = .error (.unknownOpcode opcode place) →
      ∀ more, decodeOps (code ++ more) = .error (.unknownOpcode opcode place)) ∧
    (∀ c c' op, readOp c = .ok op c' →
      c.offset < c'.offset ∧ c'.offset ≤ c.offset + c.rest.length ∧
        c'.rest = c.rest.drop (c'.offset - c.offset)) ∧
    ∀ code,
      (∃ ops, decodeOps code = .ok ops ∧ ops.length ≤ code.length) ∨
        (∃ place ≤ code.length, decodeOps code = .error (.truncated place)) ∨
          ∃ opcode, ∃ place < code.length,
            decodeOps code = .error (.unknownOpcode opcode place) := by
  refine ⟨fun a b ops h => decodeOps_append h b, fun code => decodeOps_eq_truncated_iff,
    fun code opcode place => decodeOps_eq_unknown_iff,
    fun code opcode place h => decodeOps_append_of_unknown h, fun c c' op h => ?_, decodeOps_cases⟩
  obtain ⟨bytes, hsome, hc, hoffset⟩ := reads_of_readOp h
  have hpos := List.length_pos_iff.mpr hsome
  have hrest : c.rest = bytes ++ c'.rest := congrArg Cursor.rest hc
  refine ⟨by omega, by rw [hrest, List.length_append]; omega, ?_⟩
  rw [hoffset, Nat.add_sub_cancel_left, hrest, List.drop_left]

/-- A literal in front of one that is cut short in its second byte, and a byte that is no opcode
behind a local. -/
theorem decodeOps_piecewise_failing :
    decodeOps [0x24, 0xff] = .ok [.push (.byte (-1))] ∧
      decodeOps ([0x24, 0xff] ++ [0x2c, 0x80]) =
        behind [.push (.byte (-1))] 2 (decodeOps [0x2c, 0x80]) ∧
      (∃ more ops, decodeOps ([0x24, 0xff, 0x2c, 0x80] ++ more) = .ok ops) ∧
      decodeOps [0xd1, 0xff] = .error (.unknownOpcode 0xff 1) ∧
      (∀ more, decodeOps ([0xd1, 0xff] ++ more) = .error (.unknownOpcode 0xff 1)) ∧
      ∃ c', readOp ⟨[0x62, 0x85, 0x00, 0x29], 7⟩ = .ok (.getLocal 5) c' ∧
        c'.rest = [0x62, 0x85, 0x00, 0x29].drop (c'.offset - 7) := by
  have hread : decodeOps [0x24, 0xff] = .ok [.push (.byte (-1))] := by decide +kernel
  have hcut : decodeOps [0x24, 0xff, 0x2c, 0x80] = .error (.truncated 4) := by decide +kernel
  have hno : decodeOps [0xd1, 0xff] = .error (.unknownOpcode 0xff 1) := by decide +kernel
  have hlocal : readOp ⟨[0x62, 0x85, 0x00, 0x29], 7⟩ = .ok (.getLocal 5) ⟨[0x29], 10⟩ := rfl
  obtain ⟨happend, htruncated, -, hunknown, hforward, -⟩ := decodeOps_piecewise
  exact ⟨hread, happend _ _ _ hread, ((htruncated _).mp ⟨4, hcut⟩).2, hno, hunknown _ _ _ hno,
    _, hlocal, (hforward _ _ _ hlocal).2.2⟩

end Swf.Abc
