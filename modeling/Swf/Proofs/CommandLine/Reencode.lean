import Swf.CommandLine.Command
import Swf.Proofs.Movie.Compression
import Swf.Proofs.Movie.Rewrite

/-!
# Re-encoding

A re-encoded file holds the movie of the input in the form that was asked for, and the check
compares the plain forms of both files and nothing else. It does not change what is written, it only
refuses: an input that is not in normal form, or whose records have been skipped, is decoded and
encoded alike and then fails the check, at the first byte at which the plain forms part.
-/

namespace Swf

/-! ## Where two lists part -/

/-- A prefix of both lists that every other prefix of both is a prefix of. -/
structure LongestCommonPrefix (common as bs : List UInt8) : Prop where
  left : common <+: as
  right : common <+: bs
  longest : ∀ front, front <+: as → front <+: bs → front <+: common

theorem longestCommonPrefix_take (as bs : List UInt8) :
    LongestCommonPrefix (as.take (commonLength as bs)) as bs := by
  fun_induction commonLength as bs with
  | case1 as b bs ih =>
    refine ⟨List.prefix_cons_inj b |>.mpr ih.left, List.prefix_cons_inj b |>.mpr ih.right, ?_⟩
    intro front h h'
    cases front with
    | nil => exact List.nil_prefix
    | cons c front =>
      obtain ⟨hhead, htail⟩ := List.cons_prefix_cons.mp h
      obtain ⟨-, htail'⟩ := List.cons_prefix_cons.mp h'
      exact List.cons_prefix_cons.mpr ⟨hhead, ih.longest front htail htail'⟩
  | case2 a as b bs hne =>
    refine ⟨List.nil_prefix, List.nil_prefix, fun front h h' => ?_⟩
    cases front with
    | nil => exact List.nil_prefix
    | cons c front =>
      have ha := (List.cons_prefix_cons.mp h).1
      have hb := (List.cons_prefix_cons.mp h').1
      exact absurd (ha.symm.trans hb) hne
  | case3 as bs hnot =>
    refine ⟨List.nil_prefix, List.nil_prefix, fun front h h' => ?_⟩
    cases as with
    | nil => exact h
    | cons a as =>
      cases bs with
      | nil => exact h'
      | cons b bs => exact (hnot a as b bs rfl rfl).elim

theorem LongestCommonPrefix.unique {common common' as bs : List UInt8}
    (h : LongestCommonPrefix common as bs) (h' : LongestCommonPrefix common' as bs) :
    common = common' :=
  (h'.longest _ h.left h.right).eq_of_length_le (h.longest _ h'.left h'.right).length_le

theorem commonLength_le (as bs : List UInt8) : commonLength as bs ≤ as.length := by
  fun_induction commonLength as bs with
  | case1 as b bs ih => exact Nat.succ_le_succ ih
  | case2 | case3 => exact Nat.zero_le _

/-! ## The check -/

theorem CommandError.message_differs (offset sizeIn sizeOut : Nat) :
    (differs offset sizeIn sizeOut).message =
      s!"re-encoded file differs from input at byte {offset} (" ++
        s!"{sizeIn} bytes in, {sizeOut} bytes out)" := by
  have hopen : " (" = " " ++ "(" := rfl
  unfold message
  simp only [hopen, String.append_assoc]
  rfl

section check

variable {input output before after : List UInt8}

theorem checkLossless_of_images (h : Movie.uncompressedImage input = .ok before)
    (h' : Movie.uncompressedImage output = .ok after) :
    checkLossless input output =
      if before = after then .ok ()
      else .error (.differs (commonLength before after) before.length after.length) := by
  unfold checkLossless
  rw [h, h']
  by_cases heq : before = after
  · rw [if_pos heq]
    exact if_neg (not_not.mpr heq)
  · rw [if_neg heq]
    exact if_pos heq

theorem images_of_checkLossless (h : checkLossless input output = .ok ()) :
    ∃ before after, Movie.uncompressedImage input = .ok before ∧
      Movie.uncompressedImage output = .ok after := by
  unfold checkLossless at h
  cases hbefore : Movie.uncompressedImage input with
  | error err => rw [hbefore] at h; cases h
  | ok before =>
    cases hafter : Movie.uncompressedImage output with
    | error err => rw [hbefore, hafter] at h; cases h
    | ok after => exact ⟨before, after, rfl, rfl⟩

theorem checkLossless_eq_ok_iff :
    checkLossless input output = .ok () ↔
      ∃ image, Movie.uncompressedImage input = .ok image ∧
        Movie.uncompressedImage output = .ok image := by
  constructor
  · intro h
    obtain ⟨before, after, hbefore, hafter⟩ := images_of_checkLossless h
    rw [checkLossless_of_images hbefore hafter] at h
    split at h
    · next heq => exact ⟨before, hbefore, heq ▸ hafter⟩
    · cases h
  · rintro ⟨image, hin, hout⟩
    rw [checkLossless_of_images hin hout, if_pos rfl]

end check

namespace ReencodeRequest

/-! ## The command -/

/-- The request, made with or without the check. -/
def withCheck (request : ReencodeRequest) (check : Bool) : ReencodeRequest :=
  { request with check }

/-- What a request makes of a movie. -/
def target (request : ReencodeRequest) (m : Movie) : Movie :=
  { m with compressed := request.compression.resolve m.compressed }

variable {compress : List UInt8 → List UInt8} {request : ReencodeRequest}
  {content output : List UInt8}

theorem target_eq {choice : BodyCompression} (h : request.compression = choice) (m : Movie) :
    request.target m = { m with compressed := choice.resolve m.compressed } := by
  rw [target, h]

/-- When the movie is read and can be written, only the check is left to fail. -/
theorem runWith_of_steps {m : Movie} (hread : Movie.ofBytes request.unknown content = .ok m)
    (hwrite : (request.target m).toBytesWith compress = .ok output) :
    request.runWith compress content =
      if request.check then (checkLossless content output).map fun _ => output else .ok output := by
  unfold target at hwrite
  unfold runWith decodeMovie
  rw [hread]
  simp only [Except.mapError, bind, Except.bind, hwrite, pure, Except.pure]
  cases request.check with
  | false => rfl
  | true => cases checkLossless content output <;> rfl

theorem steps_of_runWith (h : request.runWith compress content = .ok output) :
    ∃ m, Movie.ofBytes request.unknown content = .ok m ∧
      (request.target m).toBytesWith compress = .ok output := by
  cases hread : Movie.ofBytes request.unknown content with
  | error err =>
    unfold runWith decodeMovie at h
    rw [hread] at h
    cases h
  | ok m =>
    refine ⟨m, rfl, ?_⟩
    cases hwrite : (request.target m).toBytesWith compress with
    | error err =>
      unfold target at hwrite
      unfold runWith decodeMovie at h
      rw [hread] at h
      simp only [Except.mapError, bind, Except.bind, hwrite] at h
      cases h
    | ok output' =>
      rw [runWith_of_steps hread hwrite] at h
      split at h
      · cases hcheck : checkLossless content output' with
        | error err => rw [hcheck] at h; cases h
        | ok =>
          rw [hcheck] at h
          exact congrArg _ (Except.ok.inj h)
      · exact congrArg _ (Except.ok.inj h)

theorem runWith_withCheck_true
    (h : (request.withCheck false).runWith compress content = .ok output) :
    (request.withCheck true).runWith compress content =
      (checkLossless content output).map fun _ => output := by
  obtain ⟨m, hread, hwrite⟩ := steps_of_runWith h
  exact runWith_of_steps hread hwrite

theorem runWith_withCheck_false
    (h : (request.withCheck true).runWith compress content = .ok output) :
    (request.withCheck false).runWith compress content = .ok output := by
  obtain ⟨m, hread, hwrite⟩ := steps_of_runWith h
  exact runWith_of_steps hread hwrite

/-- **What passes the check** is what is written without it and has the plain form of the input. -/
theorem runWith_withCheck_true_eq_ok_iff :
    (request.withCheck true).runWith compress content = .ok output ↔
      (request.withCheck false).runWith compress content = .ok output ∧
        ∃ image, Movie.uncompressedImage content = .ok image ∧
          Movie.uncompressedImage output = .ok image := by
  constructor
  · intro h
    have hplain := runWith_withCheck_false h
    refine ⟨hplain, checkLossless_eq_ok_iff.mp ?_⟩
    rw [runWith_withCheck_true hplain] at h
    cases hcheck : checkLossless content output with
    | error err => rw [hcheck] at h; cases h
    | ok => rfl
  · rintro ⟨hplain, himages⟩
    rw [runWith_withCheck_true hplain, checkLossless_eq_ok_iff.mpr himages]
    rfl

/-- The check fails on two plain forms that differ, at the end of what they have in common. -/
theorem runWith_withCheck_true_of_ne {before after : List UInt8}
    (h : (request.withCheck false).runWith compress content = .ok output)
    (hbefore : Movie.uncompressedImage content = .ok before)
    (hafter : Movie.uncompressedImage output = .ok after) (hne : before ≠ after) :
    ∃ common, LongestCommonPrefix common before after ∧
      (request.withCheck true).runWith compress content =
        .error (.differs common.length before.length after.length) := by
  refine ⟨_, longestCommonPrefix_take before after, ?_⟩
  rw [List.length_take_of_le (commonLength_le before after), runWith_withCheck_true h,
    checkLossless_of_images hbefore hafter, if_neg hne]
  rfl

/-- A new file holds the movie of the input in the form that was asked for. -/
theorem ofBytes_of_runWith (hz : Zlib.Inverts compress)
    (h : request.runWith compress content = .ok output) :
    ∃ m, Movie.ofBytes request.unknown content = .ok m ∧
      Movie.ofBytes .preserve output = .ok (request.target m) := by
  obtain ⟨m, hread, hwrite⟩ := steps_of_runWith h
  have hm := Movie.readable_of_ofBytes hread
  have htarget : (request.target m).Readable := ⟨hm.frameSize, hm.tags⟩
  exact ⟨m, hread, Movie.ofBytes_of_readable htarget (fun _ => hz) hwrite⟩

/-- **The check is sound, complete and precise.** With it, a request has the result it has without,
provided that input and output have the same plain form, and no result otherwise. If both plain
forms exist and differ, the message says how long their longest common prefix is, and how long they
are.

Whatever is written is read as the movie of the input, but for its form. A file whose form is kept
starts with the letters that the input starts with; one that is compressed starts with `CWS` and one
that is decompressed with `FWS`, whichever the input was. -/
theorem runWith_check_precise (hz : Zlib.Inverts compress) (request : ReencodeRequest)
    (content : List UInt8) :
    (∀ output, (request.withCheck true).runWith compress content = .ok output ↔
        (request.withCheck false).runWith compress content = .ok output ∧
          ∃ image, Movie.uncompressedImage content = .ok image ∧
            Movie.uncompressedImage output = .ok image) ∧
      (∀ output before after,
        (request.withCheck false).runWith compress content = .ok output →
        Movie.uncompressedImage content = .ok before →
        Movie.uncompressedImage output = .ok after → before ≠ after →
        ∃ common err, LongestCommonPrefix common before after ∧
          (request.withCheck true).runWith compress content = .error err ∧
          err.message = s!"re-encoded file differs from input at byte {common.length} (" ++
            s!"{before.length} bytes in, {after.length} bytes out)") ∧
      ∀ output, request.runWith compress content = .ok output →
        ∃ m, Movie.ofBytes request.unknown content = .ok m ∧
          content.take 3 = (if m.compressed then [0x43, 0x57, 0x53] else [0x46, 0x57, 0x53]) ∧
          (request.compression = .keep →
            output.take 3 = content.take 3 ∧ Movie.ofBytes .preserve output = .ok m) ∧
          (request.compression = .compress →
            output.take 3 = [0x43, 0x57, 0x53] ∧
              Movie.ofBytes .preserve output = .ok { m with compressed := true }) ∧
          (request.compression = .decompress →
            output.take 3 = [0x46, 0x57, 0x53] ∧
              Movie.ofBytes .preserve output = .ok { m with compressed := false }) := by
  refine ⟨fun output => runWith_withCheck_true_eq_ok_iff, ?_, ?_⟩
  · intro output before after h hbefore hafter hne
    obtain ⟨common, hcommon, herr⟩ := runWith_withCheck_true_of_ne h hbefore hafter hne
    exact ⟨common, _, hcommon, herr, CommandError.message_differs _ _ _⟩
  · intro output h
    obtain ⟨m, hread, hback⟩ := ofBytes_of_runWith hz h
    have hletters := Movie.take_of_ofBytes hread
    refine ⟨m, hread, hletters, fun hkeep => ?_, fun hcompress => ?_, fun hdecompress => ?_⟩
    · rw [target_eq hkeep] at hback
      exact ⟨(Movie.take_of_ofBytes hback).trans hletters.symm, hback⟩
    · rw [target_eq hcompress] at hback
      exact ⟨Movie.take_of_ofBytes hback, hback⟩
    · rw [target_eq hdecompress] at hback
      exact ⟨Movie.take_of_ofBytes hback, hback⟩

/-- A movie of one frame is compressed and decompressed again. With a record that is skipped in
front of its end, the plain forms part at the length. -/
theorem runWith_check_precise_frame :
    let request (compression : BodyCompression) : ReencodeRequest :=
      { input := "in.swf", output := "out.swf", compression, unknown := .skip, check := true }
    let plain : List UInt8 := [70, 87, 83, 10, 17, 0, 0, 0, 0, 0, 24, 1, 0, 0x40, 0, 0, 0]
    let packed : List UInt8 :=
      [67, 87, 83, 10, 17, 0, 0, 0, 120, 1, 1, 9, 0, 246, 255, 0, 0, 24, 1, 0, 0x40, 0, 0, 0, 1,
        183, 0, 90]
    let skipped : List UInt8 :=
      [70, 87, 83, 10, 20, 0, 0, 0, 0, 0, 24, 1, 0, 0x40, 0, 0xC1, 0x3F, 7, 0, 0]
    (∃ m, Movie.ofBytes .skip plain = .ok m ∧ m.compressed = false ∧
      (request .compress).runWith Zlib.compress plain = .ok packed ∧
      Movie.ofBytes .preserve packed = .ok { m with compressed := true }) ∧
    (∃ m, Movie.ofBytes .skip packed = .ok m ∧ m.compressed = true ∧
      (request .decompress).runWith Zlib.compress packed = .ok plain ∧
      Movie.ofBytes .preserve plain = .ok { m with compressed := false }) ∧
    ∃ err, (request .keep).runWith Zlib.compress skipped = .error err ∧
      err.message = "re-encoded file differs from input at byte 4 (20 bytes in, 17 bytes out)" := by
  intro request plain packed skipped
  refine ⟨?_, ?_, ?_⟩
  · have hpack : (request .compress).runWith Zlib.compress plain = .ok packed := by decide +kernel
    obtain ⟨m, hread, hletters, -, hcompress, -⟩ :=
      (runWith_check_precise Zlib.inverts_compress (request .compress) plain).2.2 packed hpack
    refine ⟨m, hread, ?_, hpack, (hcompress rfl).2⟩
    cases hflag : m.compressed with
    | false => rfl
    | true =>
      rw [hflag] at hletters
      exact absurd hletters (by decide)
  · have hunpack : (request .decompress).runWith Zlib.compress packed = .ok plain := by
      decide +kernel
    obtain ⟨m, hread, hletters, -, -, hdecompress⟩ :=
      (runWith_check_precise Zlib.inverts_compress (request .decompress) packed).2.2 plain hunpack
    refine ⟨m, hread, ?_, hunpack, (hdecompress rfl).2⟩
    cases hflag : m.compressed with
    | true => rfl
    | false =>
      rw [hflag] at hletters
      exact absurd hletters (by decide)
  · have hwrite : ((request .keep).withCheck false).runWith Zlib.compress skipped = .ok plain := by
      decide +kernel
    obtain ⟨common, err, hcommon, herr, hmessage⟩ :=
      (runWith_check_precise Zlib.inverts_compress (request .keep) skipped).2.1 plain skipped
        plain hwrite (by decide +kernel) (by decide +kernel) (by decide)
    obtain rfl := hcommon.unique (longestCommonPrefix_take _ _)
    exact ⟨err, herr, hmessage.trans (by decide +kernel)⟩

end ReencodeRequest

end Swf
