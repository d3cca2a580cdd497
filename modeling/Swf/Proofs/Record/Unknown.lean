import Swf.Proofs.Record.Block
import Swf.Proofs.Tag.Readable

/-!
# Records of no kind

A record whose code has no kind is kept, dropped or refused, and the three ways are three pieces of
code: one reads the payload on its own under the rules of a layout, one passes over it in the stream
itself, and one does not look at it. Still they go together, because a payload of no kind is a block
(`readPayload_of_unknown`). So dropping is keeping and forgetting (`read_skip`), and refusing is
keeping unless there is something to refuse (`strict_read`).
-/

namespace Swf

open Decoder

namespace Record

/-- A payload is read as a tag of the kind that its code has, or of none. -/
theorem ensures_kind_readPayload (header : RecordHeader) :
    Ensures (readPayload header) fun tag _ => tag.kind? = TagKind.ofCode? header.code := by
  have hskip : ∀ n, Ensures (mapError (.insideRecord header.code) (skip n)) fun _ _ => True :=
    fun n => Ensures.mapError _ <|
      (Ensures.readBytes n).bind fun _ _ _ => Ensures.pure trivial
  have hread : Ensures (Tag.read header) fun tag _ => tag.kind? = TagKind.ofCode? header.code := by
    unfold Tag.read
    cases hkind : TagKind.ofCode? header.code with
    | some kind => exact (Tag.ensures_readKind header kind).mono fun tag k h => h.1
    | none => exact (Ensures.readBytes _).bind fun _ _ _ => Ensures.pure rfl
  refine Ensures.position.bind fun start _ _ => ?_
  refine Ensures.within (P := fun tag _ => tag.kind? = TagKind.ofCode? header.code) ?_
    fun tag k _ h => h
  refine (hread.mapError _).bind fun tag j h => Ensures.position.bind fun _ _ _ => ?_
  dsimp only
  split
  · exact (hskip _).bind fun _ _ _ => Ensures.pure h
  · exact Ensures.pure h

/-- The code of a record is in the word that its header begins with. -/
theorem code_of_header {r r' : Reader} {header : RecordHeader}
    (h : RecordHeader.read r = .ok header r') :
    header.code = UInt16.ofNat (littleEndian (r.source.remaining.take 2)) >>> 6 := by
  obtain ⟨word, s, hword, hrest⟩ := ok_of_bind h
  obtain ⟨bytes, s', hbytes, hpure⟩ := ok_of_bind hword
  obtain ⟨rfl, -⟩ := readFully_eq_ok hbytes
  cases hpure
  simp only at hrest
  split at hrest
  · obtain ⟨length, s'', -, hheader⟩ := ok_of_bind hrest
    cases hheader
    rfl
  · cases hrest
    rfl

/-- A record that is kept byte for byte is kept under the code in its header. -/
theorem code_of_read {r r' : Reader} {record : UnknownTag}
    (h : Record.read .preserve r = .ok (some (.unknown record)) r') :
    record.code = UInt16.ofNat (littleEndian (r.source.remaining.take 2)) >>> 6 := by
  obtain ⟨offset, s, hoffset, hrest⟩ := ok_of_bind h
  cases hoffset
  obtain ⟨header, s, hheader, hbody⟩ := ok_of_bind hrest
  rw [← code_of_header hheader]
  have hpayload : (some <$> readPayload header) s = .ok (some (.unknown record)) r' := by
    cases hkind : TagKind.ofCode? header.code <;> simpa only [hkind] using hbody
  obtain ⟨tag, htag, heq⟩ := map_eq_ok hpayload
  cases heq
  obtain ⟨-, hkind, -⟩ := ensures_kind_readPayload header s _ r' htag
  rw [readPayload_of_unknown hkind.symm] at htag
  obtain ⟨data, -, heq⟩ := map_eq_ok htag
  cases heq
  rfl

/-! ## Dropping -/

/-- What is left of a record when those of no kind are dropped. -/
def dropUnknown (tag : Option Tag) : Option Tag := tag.filter (·.kind?.isSome)

theorem dropUnknown_eq_end {tag : Option Tag} : dropUnknown tag = some .end ↔ tag = some .end := by
  unfold dropUnknown
  rw [Option.filter_eq_some_iff]
  exact and_iff_left rfl

theorem toList_dropUnknown (tag : Option Tag) :
    (dropUnknown tag).toList = tag.toList.filter (·.kind?.isSome) := by
  cases tag with
  | none => rfl
  | some tag => cases hkind : tag.kind? <;> simp [dropUnknown, Option.filter_some, hkind]

/-- **Dropping** a record is keeping it and forgetting it. -/
theorem read_skip : Record.read .skip = dropUnknown <$> Record.read .preserve := by
  unfold Record.read
  simp only [map_bind]
  refine congrArg (position >>= ·) (funext fun offset => ?_)
  refine congrArg (RecordHeader.read >>= ·) (funext fun header => funext fun r => ?_)
  cases hkind : TagKind.ofCode? header.code with
  | none =>
    dsimp only
    rw [readPayload_of_unknown hkind]
    cases hrun : readBytes header.length.toNat r with
    | error err s =>
      rw [map_of_error (map_of_error (map_of_error (mapError_of_error hrun)))]
      exact bind_of_error (mapError_of_error (bind_of_error hrun))
    | ok data s =>
      rw [map_of_ok (map_of_ok (map_of_ok (mapError_of_ok hrun)))]
      exact bind_of_ok (mapError_of_ok (bind_of_ok hrun))
  | some kind =>
    dsimp only
    cases hrun : readPayload header r with
    | error err s => rw [map_of_error (map_of_error hrun), map_of_error hrun]
    | ok tag s =>
      obtain ⟨-, htag, -⟩ := ensures_kind_readPayload header r tag s hrun
      have hkeep : dropUnknown (some tag) = some tag := by
        unfold dropUnknown
        rw [Option.filter_some, htag, hkind]
        rfl
      rw [map_of_ok (map_of_ok hrun), map_of_ok hrun, hkeep]

end Record

/-! ## Refusing -/

namespace Decoder

variable {α β : Type} {r : Reader}

/-- A run that refuses records next to one that keeps them. They go together up to the first record
that is refused, which `refused` finds in what the other one gives. -/
inductive Strict (refused : α → Option (UInt16 × Nat)) :
    EStateM.Result CodecError Reader α → EStateM.Result CodecError Reader α → Prop
  | ok {a : α} {s : Reader} (h : refused a = none) : Strict refused (.ok a s) (.ok a s)
  | refused {a : α} {code : UInt16} {offset : Nat} {s t : Reader}
      (h : refused a = some (code, offset)) :
      Strict refused (.ok a s) (.error (.unsupportedTag code offset) t)
  | error {err : CodecError} {s : Reader} : Strict refused (.error err s) (.error err s)
  /-- The run that keeps records fails further on. -/
  | sooner {err : CodecError} {code : UInt16} {offset : Nat} {s t : Reader} :
      Strict refused (.error err s) (.error (.unsupportedTag code offset) t)

/-- What has been refused stays refused, whatever follows. -/
theorem Strict.bind {m m' : Decoder α} {f f' : α → Decoder β}
    {first : α → Option (UInt16 × Nat)} {all : β → Option (UInt16 × Nat)}
    (hm : Strict first (m r) (m' r))
    (hnone : ∀ a s, m r = .ok a s → first a = none → Strict all (f a s) (f' a s))
    (hsome : ∀ a s b t x, first a = some x → f a s = .ok b t → all b = some x) :
    Strict all ((m >>= f) r) ((m' >>= f') r) := by
  generalize hx : m r = x at hm
  generalize hy : m' r = y at hm
  cases hm with
  | ok h =>
    rw [bind_of_ok hx, bind_of_ok hy]
    exact hnone _ _ hx h
  | @refused a code offset s t h =>
    rw [bind_of_ok hx, bind_of_error hy]
    cases hrest : f a s with
    | error err s' => exact .sooner
    | ok b s' => exact .refused (hsome a s b s' _ h hrest)
  | error =>
    rw [bind_of_error hx, bind_of_error hy]
    exact .error
  | sooner =>
    rw [bind_of_error hx, bind_of_error hy]
    exact .sooner

/-- A part that both runs have in common. -/
theorem Strict.bind_same {m : Decoder α} {f f' : α → Decoder β}
    {all : β → Option (UInt16 × Nat)}
    (h : ∀ a s, m r = .ok a s → Strict all (f a s) (f' a s)) :
    Strict all ((m >>= f) r) ((m >>= f') r) := by
  have hm : Strict (fun _ : α => none) (m r) (m r) := by
    cases m r with
    | ok a s => exact .ok rfl
    | error err s => exact .error
  exact hm.bind (fun a s hma _ => h a s hma) (by simp)

/-- What the two runs give. -/
theorem Strict.outcome {m m' : Decoder α} {refused : α → Option (UInt16 × Nat)}
    (h : Strict refused (m r) (m' r)) :
    (∃ a, m.outcome r = .ok a ∧ refused a = none ∧ m'.outcome r = .ok a) ∨
    (∃ a code offset, m.outcome r = .ok a ∧ refused a = some (code, offset) ∧
      m'.outcome r = .error (.unsupportedTag code offset)) ∨
    ∃ err, m.outcome r = .error err ∧
      (m'.outcome r = .error err ∨
        ∃ code offset, m'.outcome r = .error (.unsupportedTag code offset)) := by
  unfold Decoder.outcome
  generalize m r = x at h
  generalize m' r = y at h
  cases h with
  | ok h => exact .inl ⟨_, rfl, h, rfl⟩
  | refused h => exact .inr (.inl ⟨_, _, _, rfl, h, rfl⟩)
  | error => exact .inr (.inr ⟨_, rfl, .inl rfl⟩)
  | sooner => exact .inr (.inr ⟨_, rfl, .inr ⟨_, _, rfl⟩⟩)

end Decoder

/-- What refusing a tag at an offset reports: its code and the offset. -/
def Tag.refused (offset : Nat) (tag : Tag) : Option (UInt16 × Nat) :=
  if tag.kind? = none then some (tag.code, offset) else none

namespace Record

/-- **Refusing** a record is keeping it, unless it has no kind. -/
theorem strict_read (r : Reader) :
    Strict (·.bind (Tag.refused r.position)) (Record.read .preserve r) (Record.read .error r) := by
  refine Strict.bind_same fun offset s hoffset => Strict.bind_same fun header s' _ => ?_
  cases hoffset
  cases hkind : TagKind.ofCode? header.code with
  | none =>
    dsimp only
    rw [readPayload_of_unknown hkind]
    cases hrun : mapError (.insideRecord header.code) (readBytes header.length.toNat) s' with
    | error err t =>
      rw [map_of_error (map_of_error hrun)]
      exact .sooner
    | ok data t =>
      rw [map_of_ok (map_of_ok hrun)]
      exact .refused rfl
  | some kind =>
    dsimp only
    cases hrun : readPayload header s' with
    | error err t => rw [map_of_error hrun]; exact .error
    | ok tag t =>
      obtain ⟨-, htag, -⟩ := ensures_kind_readPayload header s' tag t hrun
      have hkeep : tag.refused r.position = none := by
        unfold Tag.refused
        rw [htag, hkind]
        rfl
      rw [map_of_ok hrun]
      exact .ok hkeep

end Record

end Swf
