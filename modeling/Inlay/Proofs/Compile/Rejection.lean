import Inlay.Proofs.Compile.Batch
import Inlay.Proofs.Workspace.Results
import Mathlib

/-!
# What a failed file leaves behind

A file is read and transformed before anything is written, so a failure up to there changes nothing.
The result is encoded after the output has been emptied (`of_runOn_deliver_error`): a result that
the encoding cannot represent costs what stood there before. An output whose text is no path is
noticed after the folders around it have been made.
-/

namespace Inlay

open Inlay.Action

namespace Volume

/-- Nothing but folders has been added. -/
def Furnished (v w : Volume) : Prop :=
  ∀ p, w.get? p = v.get? p ∨ v.get? p = none ∧ w.get? p = some .folder

theorem Furnished.trans {u v w : Volume} (h : u.Furnished v) (h' : v.Furnished w) :
    u.Furnished w := by
  intro p
  rcases h' p with hw | ⟨hv, hw⟩
  · rw [hw]
    exact h p
  · rcases h p with hu | ⟨_, hu⟩
    · exact Or.inr ⟨hu ▸ hv, hw⟩
    · simp [hu] at hv

theorem furnished_makeFolder {v w : Volume} {path : Path} (h : v.makeFolder path = .ok w) :
    v.Furnished w := by
  unfold makeFolder at h
  split at h
  · simp at h
  · simp at h
  · next folder name hl =>
    obtain rfl := Except.ok.inj h
    have hvacant := (reaches_of_follow (follow_of_locate hl) (by simp)).vacant
    intro p
    rw [get?_put (by simp)]
    by_cases hp : p = folder ++ [name]
    · exact Or.inr ⟨by rw [hp, hvacant], by rw [if_pos hp]⟩
    · exact Or.inl (if_neg hp)

end Volume

namespace Compile

variable [Host]

variable {compiler : Compiler} {profile : Profile} {job : Job} {encoding : Text} {s t : Workspace}

/-! ### Failures on the way -/

/-- The source can be read and its fragments compile; this is the text for its output. -/
def Yields (compiler : Compiler) (profile : Profile) (job : Job) (s : Workspace)
    (encoding output : Text) : Prop :=
  profile.encoding = some encoding ∧
    outputText compiler profile job.source encoding (planned .read job.source s.faults).1
      (s.volume.read job.source) = .ok output

/-- There is a text for an output that is a path, and the encoding cannot represent it. -/
def Unencodable (compiler : Compiler) (profile : Profile) (job : Job) (s : Workspace) : Prop :=
  Path.IsUsable job.output ∧ ∃ encoding output codec fault,
    Yields compiler profile job s encoding output ∧
    Encoding.find? encoding = some (.text codec) ∧ codec.encode output = .error fault

/-- There is a text for an output that is no path. -/
def Misspelled (compiler : Compiler) (profile : Profile) (job : Job) (s : Workspace) : Prop :=
  ¬ Path.IsUsable job.output ∧ ∃ encoding output, Yields compiler profile job s encoding output

/-- There is a text for the output, and an operation of the file system fails. By then the compiler
has done its work, so the failure is none of its own. -/
def Refused (compiler : Compiler) (profile : Profile) (job : Job) (s : Workspace) : Prop :=
  (∃ encoding output, Yields compiler profile job s encoding output) ∧
    ∃ e, ((compileFile compiler profile job).runOn s).1 = .error (.os e)

/-- The workspace once the source has been read. -/
def sourceRead (job : Job) (s : Workspace) : Workspace :=
  { s with faults := (planned .read job.source s.faults).2 }

/-- The folders around the output are there, and the output is a file without content. -/
def Emptied (job : Job) (s : Workspace) (w : Volume) : Prop :=
  ∃ u place, (Action.ensureParent job.output).runOn (sourceRead job s) = (.ok (), u) ∧
    s.volume.Furnished u.volume ∧ u.volume.target job.output = .ok place ∧
    w = u.volume.put place (.file [])

/-- The folders around the output have been made as far as that went. -/
def Prepared (job : Job) (s : Workspace) (w : Volume) : Prop :=
  w = ((Action.ensureParent job.output).runOn (sourceRead job s)).2.volume ∧ s.volume.Furnished w

/-- A file that fails has no text for its output, and nothing has changed, or it fails while its
output is delivered. -/
theorem of_runOn_compileFile_error {f : Failure}
    (h : (compileFile compiler profile job).runOn s = (.error f, t)) :
    t.volume = s.volume ∧ (∀ encoding output, ¬ Yields compiler profile job s encoding output) ∨
      ∃ encoding output, Yields compiler profile job s encoding output ∧
        (deliver job output encoding).runOn (sourceRead job s) = (.error f, t) := by
  cases he : profile.encoding with
  | none =>
    have hneed : (need Setting.encoding (none : Option Text)).runOn s =
        (.error (.missingKey Setting.encoding.toList), s) := rfl
    rw [compileFile, he, runOn_bind_of_error hneed, Prod.mk.injEq] at h
    exact Or.inl ⟨by rw [← h.2], fun _ _ hy => by simpa [he] using hy.1⟩
  | some encoding =>
    rw [runOn_compileFile_planned he] at h
    split at h
    · next g hg =>
      simp only [Prod.mk.injEq] at h
      refine Or.inl ⟨by rw [← h.2], fun encoding' output hy => ?_⟩
      obtain rfl := Option.some.inj (he.symm.trans hy.1)
      simpa [hg] using hy.2
    · next output houtput =>
      exact Or.inr ⟨encoding, output, ⟨he, houtput⟩, h⟩

/-! ### Delivering -/

theorem furnished_ensureParent (path : Path) (s : Workspace) :
    s.volume.Furnished ((Action.ensureParent path).runOn s).2.volume :=
  moves_ensureParent (R := Volume.Furnished) (fun _ _ => Or.inl rfl) (fun _ _ _ => .trans)
    (fun _ _ _ _ => Volume.furnished_makeFolder) path s

theorem of_runOn_writeOutput_error {path : Path} {output : Text} {codec : Codec} {f : Failure}
    (hn : Encoding.IsName encoding) (hc : Encoding.find? encoding = some (.text codec))
    (h : (writeOutput path output encoding).runOn s = (.error f, t)) :
    (∃ e, f = .os e) ∨ (∃ refusal, f = .noPath refusal) ∧ ¬ Path.IsUsable path ∧
        t.volume = s.volume ∨
      Path.IsUsable path ∧ (∃ fault, f = .codec fault ∧ codec.encode output = .error fault) ∧
        s.volume.write path [] = .ok t.volume := by
  unfold writeOutput writeText at h
  rw [runOn_bind, runOn_guard] at h
  cases hp : (planned .write path s.faults).1 with
  | some e =>
    simp only [hp, Prod.mk.injEq, Except.error.injEq] at h
    exact Or.inl ⟨_, h.1.symm⟩
  | none =>
    simp only [hp] at h
    rw [runOn_bind_of_ok (runOn_checkName hn _)] at h
    cases hr : Path.refusal? path with
    | some refusal =>
      have hnot : ¬ Path.IsUsable path := fun hu => by
        rw [Path.refusal?_eq_none_iff.2 hu] at hr
        simp at hr
      rw [runOn_bind_of_error (runOn_onVolume_of_refused hr _ _), Prod.mk.injEq,
        Except.error.injEq] at h
      exact Or.inr (Or.inl ⟨⟨refusal, h.1.symm⟩, hnot, by rw [← h.2]⟩)
    | none =>
      have hu := Path.refusal?_eq_none_iff.1 hr
      rw [runOn_bind, runOn_onVolume hu] at h
      simp only at h
      cases hw : s.volume.write path [] with
      | error e =>
        simp only [hw, Prod.mk.injEq, Except.error.injEq] at h
        exact Or.inl ⟨_, h.1.symm⟩
      | ok w =>
        simp only [hw] at h
        rw [runOn_bind_of_ok (runOn_codec hc _)] at h
        cases hb : codec.encode output with
        | error fault =>
          simp only [hb, runOn_throw, Prod.mk.injEq, Except.error.injEq] at h
          exact Or.inr (Or.inr ⟨hu, ⟨fault, h.1.symm, rfl⟩, by rw [← h.2]⟩)
        | ok bytes =>
          simp only [hb, runOn_onVolume hu] at h
          split at h
          · simp at h
          · simp only [Prod.mk.injEq, Except.error.injEq] at h
            exact Or.inl ⟨_, h.1.symm⟩

/-- What is delivered fails by the file system, by a text that is no path, or by the encoding after
the output has been emptied. -/
theorem of_runOn_deliver_error {codec : Codec} {output : Text} {f : Failure}
    (hn : Encoding.IsName encoding) (hc : Encoding.find? encoding = some (.text codec))
    (h : (deliver job output encoding).runOn (sourceRead job s) = (.error f, t)) :
    (∃ e, f = .os e) ∨
      (∃ refusal, f = .noPath refusal) ∧ ¬ Path.IsUsable job.output ∧ Prepared job s t.volume ∨
      Path.IsUsable job.output ∧ (∃ fault, f = .codec fault ∧ codec.encode output = .error fault) ∧
        Emptied job s t.volume := by
  have hmade := furnished_ensureParent job.output (sourceRead job s)
  unfold deliver at h
  rw [runOn_bind] at h
  cases hp : (Action.ensureParent job.output).runOn (sourceRead job s) with
  | mk r u =>
    rw [hp] at hmade
    cases r with
    | error e =>
      simp only [hp, Prod.mk.injEq, Except.error.injEq] at h
      obtain ⟨rfl, rfl⟩ := h
      have hthrows : Throws (fun f => (∃ e, f = .os e) ∨
          (∃ refusal, f = .noPath refusal) ∧ ¬ Path.IsUsable job.output)
          (Action.ensureParent job.output) :=
        throws_ensureParent (fun e => Or.inl ⟨e, rfl⟩) fun hnot refusal =>
          Or.inr ⟨⟨refusal, rfl⟩, hnot⟩
      refine (hthrows _ _ _ hp).imp_right fun ⟨hrefusal, hnot⟩ => Or.inl ⟨hrefusal, hnot, ?_⟩
      exact ⟨by rw [hp], hmade⟩
    | ok _ =>
      simp only [hp] at h
      rw [runOn_bind] at h
      cases hw : (writeOutput job.output output encoding).runOn u with
      | mk r' u' =>
        cases r' with
        | ok _ => simp [hw] at h
        | error g =>
          simp only [hw, Prod.mk.injEq, Except.error.injEq] at h
          obtain ⟨rfl, rfl⟩ := h
          rcases of_runOn_writeOutput_error hn hc hw with hos | ⟨hrefusal, hnot, hsame⟩ |
            ⟨hu, hfault, hwrite⟩
          · exact Or.inl hos
          · exact Or.inr (Or.inl ⟨hrefusal, hnot, by rw [hp, hsame], by rwa [hsame]⟩)
          · obtain ⟨place, htarget, hput⟩ := Volume.write_eq_ok_iff.1 hwrite
            exact Or.inr (Or.inr ⟨hu, hfault, u, place, hp, hmade, htarget, hput.symm⟩)

/-! ### Failed outcomes -/

theorem of_runOn_toOutcome_failed {o : Outcome}
    (h : (toOutcome compiler profile job).runOn s = (.ok o, t)) (hok : o.ok = false) :
    ∃ f u, (compileFile compiler profile job).runOn s = (.error f, u) ∧ t.volume = u.volume := by
  unfold toOutcome at h
  rw [runOn_bind, runOn_attempt] at h
  simp only at h
  split at h
  · simp only [runOn_pure, Prod.mk.injEq, Except.ok.injEq] at h
    simp [← h.1, Outcome.compiled] at hok
  · next f hf =>
    refine ⟨f, _, Prod.ext hf rfl, ?_⟩
    split at h
    · rw [runOn_bind_of_ok (runOn_log _ _ _ _)] at h
      simp only [runOn_pure, Prod.mk.injEq] at h
      rw [← h.2, Workspace.logged_volume]
    · simp at h

/-- Unless the file system refuses the output, a failed file leaves the volume as it was, except
that a result which the encoding cannot represent leaves an empty output, and an output whose text
is no path leaves the folders around it. -/
theorem failed_file_keeps_volume {o : Outcome}
    (h : (toOutcome compiler profile job).runOn s = (.ok o, t)) (hok : o.ok = false)
    (hf : ¬ Refused compiler profile job s) :
    (¬ Unencodable compiler profile job s → ¬ Misspelled compiler profile job s →
        t.volume = s.volume) ∧
      (Unencodable compiler profile job s → Emptied job s t.volume) ∧
      (Misspelled compiler profile job s → Prepared job s t.volume) := by
  obtain ⟨f, u, hrun, hvolume⟩ := of_runOn_toOutcome_failed h hok
  rw [hvolume]
  rcases of_runOn_compileFile_error hrun with ⟨hkept, hno⟩ | ⟨encoding, output, hy, hdel⟩
  · exact ⟨fun _ _ => hkept,
      fun ⟨_, encoding, output, _, _, hy, _⟩ => absurd hy (hno encoding output),
      fun ⟨_, encoding, output, hy⟩ => absurd hy (hno encoding output)⟩
  · obtain ⟨hn, codec, _, _, hc, _⟩ := of_outputText hy.2
    rcases of_runOn_deliver_error hn hc hdel with ⟨e, rfl⟩ | ⟨_, hnot, hprepared⟩ |
      ⟨hu, ⟨fault, _, hfault⟩, hempty⟩
    · exact absurd ⟨⟨encoding, output, hy⟩, e, by rw [hrun]⟩ hf
    · exact ⟨fun _ hno => absurd ⟨hnot, encoding, output, hy⟩ hno, fun hu => absurd hu.1 hnot,
        fun _ => hprepared⟩
    · exact ⟨fun hno => absurd ⟨hu, encoding, output, codec, fault, hy, hc, hfault⟩ hno,
        fun _ => hempty, fun hnot => absurd hu hnot.1⟩

end Compile

end Inlay

namespace Inlay.Compile

open Inlay.Standard Inlay.Action

/-- A source beside the output of an earlier run. -/
def compiledBefore (content : Bytes) : Workspace :=
  .holding [([['r']], .folder), ([['r'], "a.tea".toList], .file content),
    ([['r'], "a.php".toList], .file (Utf8.encode "old".toList))]

theorem failed_file_keeps_volume_of_undecodable :
    ∃ o t, (toOutcome .passthrough (Profile.ofTable Setting.defaults)
        ⟨"r/a.tea".toList, "r/a.php".toList⟩).runOn (compiledBefore [255]) = (.ok o, t) ∧
      o.ok = false ∧ t.volume = (compiledBefore [255]).volume := by
  have hno : ∀ encoding output, ¬ Yields .passthrough (Profile.ofTable Setting.defaults)
      ⟨"r/a.tea".toList, "r/a.php".toList⟩ (compiledBefore [255]) encoding output := by
    rintro encoding output ⟨he, houtput⟩
    obtain rfl : "utf-8".toList = encoding := Option.some.inj he
    have hfails : outputText .passthrough (Profile.ofTable Setting.defaults) "r/a.tea".toList
        "utf-8".toList none ((compiledBefore [255]).volume.read "r/a.tea".toList) =
          .error (.codec (.undecodable "utf-8" 255 0 1 .invalidStart)) := by cbv
    exact absurd (hfails.symm.trans houtput) (by simp)
  have hfile : ((compileFile .passthrough (Profile.ofTable Setting.defaults)
      ⟨"r/a.tea".toList, "r/a.php".toList⟩).runOn (compiledBefore [255])).1 =
        .error (.codec (.undecodable "utf-8" 255 0 1 .invalidStart)) := by cbv
  obtain ⟨record, hrun⟩ := exists_runOn_toOutcome_of_error (Prod.ext hfile rfl) rfl
  refine ⟨_, _, hrun, rfl, (failed_file_keeps_volume hrun rfl ?_).1 ?_ ?_⟩
  · rintro ⟨⟨encoding, output, hy⟩, _⟩
    exact hno encoding output hy
  · rintro ⟨_, encoding, output, _, _, hy, _⟩
    exact hno encoding output hy
  · rintro ⟨_, encoding, output, hy⟩
    exact hno encoding output hy

/-- A file that fails for its encoding, and has lost the output that it had before. -/
theorem exists_emptied_output :
    ∃ table o t, checkSettings .strict (.table [(Setting.encoding, .text "ascii".toList),
        (Setting.targetOpenTag, .text "«".toList)]) = .ok (table, []) ∧
      (toOutcome .passthrough (Profile.ofTable table)
        ⟨"r/a.tea".toList, "r/a.php".toList⟩).runOn
          (compiledBefore (Utf8.encode "<?tea x ?>".toList)) = (.ok o, t) ∧
      o.ok = false ∧
      o.error = "'ascii' codec can't encode character '\\xab' in position 0: " ++
        "ordinal not in range(128)" ∧
      (compiledBefore (Utf8.encode "<?tea x ?>".toList)).volume.read "r/a.php".toList =
        .ok (Utf8.encode "old".toList) ∧
      t.volume.read "r/a.php".toList = .ok [] := by
  have hcheck : checkSettings .strict (.table [(Setting.encoding, .text "ascii".toList),
      (Setting.targetOpenTag, .text "«".toList)]) =
        .ok ((Setting.defaults.set Setting.encoding (.text "ascii".toList)).set
          Setting.targetOpenTag (.text "«".toList), []) := rfl
  have hfile : ((compileFile .passthrough
      (Profile.ofTable ((Setting.defaults.set Setting.encoding (.text "ascii".toList)).set
        Setting.targetOpenTag (.text "«".toList))) ⟨"r/a.tea".toList, "r/a.php".toList⟩).runOn
      (compiledBefore (Utf8.encode "<?tea x ?>".toList))).1 =
        .error (.codec (.unencodable "ascii" '«' 0 1 (.outOfRange 128))) := by cbv
  obtain ⟨record, hrun⟩ := exists_runOn_toOutcome_of_error (Prod.ext hfile rfl) rfl
  refine ⟨_, _, _, hcheck, hrun, rfl, by decide, by cbv, ?_⟩
  rw [Workspace.logged_volume]
  cbv

end Inlay.Compile
