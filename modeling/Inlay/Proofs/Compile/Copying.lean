import Inlay.Proofs.Codec.Faithful
import Inlay.Proofs.Compile.File
import Inlay.Proofs.Fragment.Rewriting
import Inlay.Proofs.Settings.Checked
import Inlay.Proofs.Workspace.Pending
import Inlay.Proofs.Workspace.Surroundings
import Mathlib

/-!
# Files without fragments

A text without an opening marker comes back as it is, so what becomes of its file is up to the
codec. The output has the bytes of the source exactly if the codec writes the text with these. Of a
common codec this says that they start with what the codec puts in front of everything
(`unfragmented_file_copied`).
-/

namespace Inlay

open Inlay.Action

/-! ### Texts -/

theorem segments_of_unfragmented {tags : Tags} {text : Text} (h : ¬ tags.openTag <:+: text) :
    segments tags text = ([], text) := by
  have hnone : nextSegment? tags false text = none := by
    rw [nextSegment?, Text.cutFirst_none_of_not_infix h]
  rw [segments, segmentsFrom]
  split
  · rfl
  · next hsome =>
    rw [hnone] at hsome
    simp at hsome

theorem transform_of_unfragmented (compiler : Compiler) {tags : Tags} (file : Path) {text : Text}
    (h : ¬ tags.openTag <:+: text) : transform compiler tags file text = .ok text := by
  have hsegments := segments_of_unfragmented h
  have hnone : ∀ f ∈ extract tags text, compiler.compile f.inner = .ok (.text (id f.inner)) := by
    simp [extract, hsegments, place]
  rw [transform_of_ok hnone file, hsegments]
  rfl

namespace Compile

/-! ### Delivering -/

theorem planned_of_failures {op : FileOp} {path : Path} {plan : List PlannedFault}
    (h : failures op path plan = 0) : planned op path plan = (none, plan) := by
  rcases planned_cases op path plan with ⟨hplan, _⟩ | ⟨e, rest, _, hfails⟩
  · exact hplan
  · rw [h] at hfails
    exact absurd hfails.symm (by simp)

theorem runOn_guard_of_failures {s : Workspace} {op : FileOp} {path : Path}
    (h : failures op path s.faults = 0) :
    (guard op path).runOn s = (.ok (), s) := by
  rw [runOn_guard, planned_of_failures h]

variable [Host] {s : Workspace} {job : Job} {encoding : Text} {codec : Codec}

/-- The file system lets a job through: its operations do not fail, the source has this content, and
once the folders around it are there the output can be opened. -/
structure Grants (s : Workspace) (job : Job) (content : Bytes) : Prop where
  sound : s.volume.Sound
  reads : failures .read job.source s.faults = 0
  content : s.volume.read job.source = .ok content
  usable : Path.IsUsable job.output
  output : ∃ t w, (Action.ensureParent job.output).runOn s = (.ok (), t) ∧
    failures .write job.output t.faults = 0 ∧ t.volume.write job.output [] = .ok w

section
variable (hn : Encoding.IsName encoding) (hc : Encoding.find? encoding = some (.text codec))
include hn hc

theorem exists_runOn_writeOutput (hs : s.volume.Sound) {path : Path} (hu : Path.IsUsable path)
    (hfree : failures .write path s.faults = 0) {w : Volume}
    (hopened : s.volume.write path [] = .ok w) (output : Text) :
    ∃ t, (writeOutput path output encoding).runOn s = ((stored codec output).1, t) ∧
      t.volume.read path = .ok (stored codec output).2 := by
  unfold writeOutput writeText stored
  rw [runOn_bind_of_ok (runOn_guard_of_failures hfree), runOn_bind_of_ok (runOn_checkName hn s),
    runOn_bind_of_ok (by rw [runOn_onVolume hu, hopened]), runOn_bind_of_ok (runOn_codec hc _)]
  cases codec.encode output with
  | error f => exact ⟨_, rfl, hs.read_of_write hopened⟩
  | ok bytes =>
    obtain ⟨w', hwritten, hread⟩ := hs.exists_write_again hopened bytes
    simp only [runOn_onVolume hu, hwritten]
    exact ⟨_, rfl, hread⟩

theorem Grants.exists_runOn_deliver {content : Bytes} (h : Grants s job content) (output : Text) :
    ∃ t, (deliver job output encoding).runOn s = ((stored codec output).1, t) ∧
      t.volume.read job.output = .ok (stored codec output).2 := by
  obtain ⟨t, w, hmade, hfree, hopened⟩ := h.output
  have hsound := ((abides_ensureParent job.output).of_runOn hmade).sound h.sound
  obtain ⟨u, hwritten, hread⟩ :=
    exists_runOn_writeOutput hn hc hsound h.usable hfree hopened output
  unfold deliver
  rw [runOn_bind_of_ok hmade, runOn_bind, hwritten]
  cases (stored codec output).1 with
  | error f => exact ⟨u, rfl, hread⟩
  | ok _ => exact ⟨_, runOn_log _ _ _ u, by rw [Workspace.logged_volume, hread]⟩

end

/-- A file without fragments is compiled whatever the compiler is: its text is written again, if the
codec can write it. Then the output has the bytes of the source exactly if the codec writes these.
A common codec does so, for a text in which nothing stands in for a surrogate, exactly if the source
starts with the mark of the codec. -/
theorem unfragmented_file_copied {mode : CheckMode} {given : Value} {table : Table}
    {findings : List Finding} (hcheck : checkSettings mode given = .ok (table, findings))
    (he : (Profile.ofTable table).encoding = some encoding)
    (hc : Encoding.find? encoding = some (.text codec)) {content : Bytes}
    (hgrants : Grants s job content) {text : Text} (hd : codec.decode content = .ok text)
    (hplain : ¬ (Profile.ofTable table).tags.openTag <:+: text) (compiler : Compiler) :
    ∃ t, (compileFile compiler (Profile.ofTable table) job).runOn s = ((stored codec text).1, t) ∧
      t.volume.read job.output = .ok (stored codec text).2 ∧
      (((stored codec text).1 = .ok () ∧ t.volume.read job.output = .ok content) ↔
        codec.encode text = .ok content) ∧
      ∀ mark, codec.Marked mark → (∀ c ∈ text, Alphabet.isSurrogate c = false) →
        (stored codec text).1 = .ok () ∧
          (t.volume.read job.output = .ok content ↔ mark <+: content) := by
  obtain ⟨name, hname, hn⟩ := (checked_of_checkSettings hcheck).encoding
  obtain rfl := Option.some.inj (he.symm.trans hname)
  obtain ⟨t, hdelivered, hread⟩ := hgrants.exists_runOn_deliver hn hc text
  have hrun : (compileFile compiler (Profile.ofTable table) job).runOn s =
      ((stored codec text).1, t) := by
    rw [runOn_compileFile_planned he, planned_of_failures hgrants.reads, hgrants.content,
      outputText, sourceText_of_ok hn hc (hgrants.sound.isUsable_of_read hgrants.content), hd]
    simp only [Except.bind, transform_of_unfragmented compiler job.source hplain]
    exact hdelivered
  refine ⟨t, hrun, hread, ?_, fun mark hmark hs => ?_⟩
  · rw [hread, stored]
    cases codec.encode text with
    | error f => simp
    | ok bytes => simp
  · obtain ⟨bytes, hbytes, hcopied⟩ := hmark.exists_encode_of_decode hd hs
    have hstored : stored codec text = (.ok (), bytes) := by rw [stored, hbytes]
    rw [hread, hstored]
    exact ⟨rfl, by rw [← hcopied, Except.ok.injEq]⟩

end Compile

end Inlay

namespace Inlay.Compile

open Inlay.Standard Inlay.Action

def hostFile (content : Bytes) : Workspace :=
  .holding [([['r']], .folder), ([['r'], "a.tea".toList], .file content)]

theorem unfragmented_file_copied_of_lines :
    ∃ t, (compileFile .passthrough (Profile.ofTable Setting.defaults)
        ⟨"r/a.tea".toList, "r/a.php".toList⟩).runOn (hostFile (Utf8.encode "a\r\nb".toList)) =
        (.ok (), t) ∧
      t.volume.read "r/a.php".toList = .ok (Utf8.encode "a\r\nb".toList) := by
  have hcheck : checkSettings .lenient (.table []) = .ok (Setting.defaults, []) := rfl
  have hencoding : (Profile.ofTable Setting.defaults).encoding = some "utf-8".toList := rfl
  have hcodec : Encoding.find? "utf-8".toList = some (.text .utf8) := by rfl
  have hgrants : Grants (hostFile (Utf8.encode "a\r\nb".toList))
      ⟨"r/a.tea".toList, "r/a.php".toList⟩ (Utf8.encode "a\r\nb".toList) := {
    sound := by decide
    reads := rfl
    content := by cbv
    usable := by decide
    output := ⟨_, _, by cbv, rfl, by cbv⟩ }
  obtain ⟨t, hrun, _, _, hmarked⟩ := unfragmented_file_copied hcheck hencoding hcodec hgrants
    (Utf8.decode_encode "a\r\nb".toList) (by decide) .passthrough
  have hsmall : ∀ c ∈ "a\r\nb".toList, c.toNat < 0xe000 := by simp
  obtain ⟨hok, hcopied⟩ :=
    hmarked [] .utf8 fun c hc => Alphabet.isSurrogate_of_toNat_lt (hsmall c hc)
  exact ⟨t, by rw [hrun, hok], hcopied.2 List.nil_prefix⟩

/-- Settings for an encoding with a mark. -/
def marked : Table :=
  Setting.defaults.set Setting.encoding (.text "utf-8-sig".toList)

/-- A file without fragments and without a mark, and an output with a mark. -/
theorem exists_copy_with_mark :
    ∃ t, checkSettings .strict (.table [(Setting.encoding, .text "utf-8-sig".toList)]) =
        .ok (marked, []) ∧
      ¬ (Profile.ofTable marked).tags.openTag <:+: ['x'] ∧
      (hostFile (Utf8.encode ['x'])).volume.read "r/a.tea".toList = .ok (Utf8.encode ['x']) ∧
      (compileFile .passthrough (Profile.ofTable marked)
        ⟨"r/a.tea".toList, "r/a.php".toList⟩).runOn (hostFile (Utf8.encode ['x'])) = (.ok (), t) ∧
      t.volume.read "r/a.php".toList = .ok (Utf8.mark ++ Utf8.encode ['x']) :=
  ⟨_, rfl, by decide, by cbv, by cbv, by cbv⟩

end Inlay.Compile
