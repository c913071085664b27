import Inlay.Proofs.Compile.Rejection
import Mathlib

/-!
# Lookups under checked settings

A check refuses or replaces names that are not known, so that what checked settings name can be
found. The policy of the walk always is. An encoding may be a conversion that files cannot be opened
with, though, and then every file that can be read fails for it (`lookups_succeed_iff`).
-/

namespace Inlay

open Inlay.Action

/-! ### Failed lookups -/

/-- Is it the failure to find something by its name or its key? -/
def Failure.isLookupFault (f : Failure) : Bool :=
  ["LookupError", "KeyError"].contains f.kind

theorem Failure.isLookupFault_os (e : OsError) : (Failure.os e).isLookupFault = false := by
  simp only [isLookupFault, kind, osKind, List.lookup]
  repeat' split
  all_goals rfl

theorem Failure.isLookupFault_codec (fault : CodecFault) :
    (Failure.codec fault).isLookupFault = false := by
  cases fault <;> rfl

theorem Failure.isLookupFault_noPath (refusal : PathRefusal) :
    (Failure.noPath refusal).isLookupFault = false := by
  cases refusal <;> rfl

variable [Host]

/-- The file at a path has this content, and no fault is planned for reading it. -/
structure Workspace.Reads (s : Workspace) (path : Path) (content : Bytes) : Prop where
  usable : Path.IsUsable path
  planned : (planned .read path s.faults).1 = none
  content : s.volume.read path = .ok content

namespace Compile

variable {compiler : Compiler} {profile : Profile} {job : Job} {name : Text} {s t : Workspace}
  {content : Bytes}

/-! ### One file -/

/-- Where the encoding is one for text, the source can be read and the compiler never fails, what is
left to fail by is the file system, an output that is no path, the codec, and a value that is no
text. -/
theorem of_runOn_compileFile_of_total (he : profile.encoding = some name)
    (hn : Encoding.IsName name) {codec : Codec} (hc : Encoding.find? name = some (.text codec))
    (htotal : compiler.Total) (hreads : s.Reads job.source content) {f : Failure}
    (h : (compileFile compiler profile job).runOn s = (.error f, t)) :
    (∃ e, f = .os e) ∨ (∃ refusal, f = .noPath refusal) ∨ (∃ fault, f = .codec fault) ∨
      ∃ place typeName, f = .notText place typeName := by
  rw [runOn_compileFile_planned he, hreads.planned, hreads.content, outputText,
    sourceText_of_ok hn hc hreads.usable] at h
  cases hd : codec.decode content with
  | error fault =>
    simp only [hd, Except.bind, Prod.mk.injEq, Except.error.injEq] at h
    exact Or.inr (Or.inr (Or.inl ⟨fault, h.1.symm⟩))
  | ok text =>
    simp only [hd, Except.bind] at h
    cases ht : transform compiler profile.tags job.source text with
    | error g =>
      simp only [ht, Prod.mk.injEq, Except.error.injEq] at h
      rw [← h.1]
      exact Or.inr (Or.inr (Or.inr (exists_notText_of_transform htotal ht)))
    | ok output =>
      simp only [ht] at h
      rcases of_runOn_deliver_error hn hc h with hos | ⟨hrefusal, _⟩ | ⟨_, ⟨fault, hfault, _⟩, _⟩
      · exact Or.inl hos
      · exact Or.inr (Or.inl hrefusal)
      · exact Or.inr (Or.inr (Or.inl ⟨fault, hfault⟩))

/-- A file whose encoding is no encoding for text fails before anything is written, whatever its
content and its compiler are. -/
theorem exists_runOn_compileFile_of_other (compiler : Compiler)
    (he : profile.encoding = some name) (hn : Encoding.IsName name)
    (hc : Encoding.find? name = some .other) (hreads : s.Reads job.source content) :
    ∃ t, (compileFile compiler profile job).runOn s = (.error (.notTextEncoding name), t) ∧
      t.volume = s.volume := by
  have hzero : ¬ name.contains '\x00' = true := by simpa using hn.zeroFree
  rw [runOn_compileFile_planned he, hreads.planned, hreads.content]
  simp only [outputText, sourceText, hn.encodable, Path.refusal?_eq_none_iff.2 hreads.usable,
    if_neg hzero, decoded, hc, Except.bind]
  exact ⟨_, rfl, rfl⟩

end Compile

/-! ### Checked settings -/

theorem Profile.Checked.exists_policy {profile : Profile} (h : profile.Checked) :
    ∃ name policy, profile.statPolicy = some name ∧
      ∀ s, (Walk.policy name).runOn s = (.ok policy, s) := by
  obtain ⟨name, hname, hknown⟩ := h.statPolicy
  obtain ⟨policy, hpolicy⟩ := Option.isSome_iff_exists.1 hknown
  refine ⟨name, policy, hname, fun s => ?_⟩
  rw [Walk.policy, hpolicy]
  rfl

/-- Under settings that a check has accepted the policy of the walk is found, and the encoding is a
known one. No lookup fails for a file whose source can be read and whose compiler never fails,
exactly if the encoding is one for text. Otherwise every such file fails before anything is
written. -/
theorem lookups_succeed_iff {mode : CheckMode} {given : Value} {table : Table}
    {findings : List Finding} (h : checkSettings mode given = .ok (table, findings)) :
    (∃ name policy, (Profile.ofTable table).statPolicy = some name ∧
      ∀ s, (Walk.policy name).runOn s = (.ok policy, s)) ∧
    ∃ name encoding, (Profile.ofTable table).encoding = some name ∧
      Encoding.find? name = some encoding ∧
      ∀ (compiler : Compiler) (job : Job) (s : Workspace) (content : Bytes), compiler.Total →
        s.Reads job.source content →
        ((∀ f t, (Compile.compileFile compiler (Profile.ofTable table) job).runOn s =
            (.error f, t) → f.isLookupFault = false) ↔ encoding ≠ .other) ∧
        (encoding = .other → ∃ t,
          (Compile.compileFile compiler (Profile.ofTable table) job).runOn s =
            (.error (.notTextEncoding name), t) ∧ t.volume = s.volume) := by
  have hchecked := checked_of_checkSettings h
  obtain ⟨name, he, hn⟩ := hchecked.encoding
  obtain ⟨encoding, hencoding⟩ := Option.isSome_iff_exists.1 hn.known
  refine ⟨hchecked.exists_policy, name, encoding, he, hencoding,
    fun compiler job s content htotal hreads => ?_⟩
  cases encoding with
  | text codec =>
    refine ⟨iff_of_true (fun f t hrun => ?_) (by simp), by simp⟩
    rcases Compile.of_runOn_compileFile_of_total he hn hencoding htotal hreads hrun with
      ⟨e, rfl⟩ | ⟨refusal, rfl⟩ | ⟨fault, rfl⟩ | ⟨place, typeName, rfl⟩
    · exact Failure.isLookupFault_os e
    · exact Failure.isLookupFault_noPath refusal
    · exact Failure.isLookupFault_codec fault
    · rfl
  | other =>
    obtain ⟨t, hrun, hvolume⟩ :=
      Compile.exists_runOn_compileFile_of_other compiler he hn hencoding hreads
    refine ⟨iff_of_false (fun hno => ?_) (by simp), fun _ => ⟨t, hrun, hvolume⟩⟩
    have hfault : (Failure.notTextEncoding name).isLookupFault = true := rfl
    simp [hno _ t hrun] at hfault

end Inlay

namespace Inlay

open Inlay.Standard Inlay.Action

/-- A byte that is not in the encoding is no failed lookup, however the name is spelled. -/
theorem lookups_succeed_of_ascii :
    ∃ table f t, checkSettings .strict (.table [(Setting.encoding, .text "US ascii".toList)]) =
        .ok (table, []) ∧
      (Compile.compileFile .passthrough (Profile.ofTable table)
        ⟨"r/a.tea".toList, "r/a.php".toList⟩).runOn (Compile.compiledBefore [255]) = (.error f, t) ∧
      f.isLookupFault = false := by
  have hcheck : checkSettings .strict (.table [(Setting.encoding, .text "US ascii".toList)]) =
      .ok (Setting.defaults.set Setting.encoding (.text "US ascii".toList), []) := rfl
  have hfails : ((Compile.compileFile .passthrough
      (Profile.ofTable (Setting.defaults.set Setting.encoding (.text "US ascii".toList)))
      ⟨"r/a.tea".toList, "r/a.php".toList⟩).runOn (Compile.compiledBefore [255])).1 =
        .error (.codec (.undecodable "ascii" 255 0 1 (.outOfRange 128))) := by cbv
  obtain ⟨_, name, encoding, he, hencoding, hfile⟩ := lookups_succeed_iff hcheck
  obtain rfl : "US ascii".toList = name := Option.some.inj he
  have htext : Encoding.find? "US ascii".toList = some (.text (.single .ascii)) := by cbv
  obtain rfl : .text (.single .ascii) = encoding := Option.some.inj (htext.symm.trans hencoding)
  have htotal : Compiler.passthrough.Total := fun source => ⟨_, rfl⟩
  have hreads : (Compile.compiledBefore [255]).Reads "r/a.tea".toList [255] :=
    ⟨by decide, rfl, by cbv⟩
  have hno := (hfile .passthrough ⟨"r/a.tea".toList, "r/a.php".toList⟩ _ _ htotal hreads).1.2
    (by simp)
  exact ⟨_, _, _, hcheck, Prod.ext hfails rfl, hno _ _ (Prod.ext hfails rfl)⟩

/-- Settings that a check accepts, with an encoding that no file can be opened with. -/
theorem exists_failed_lookup :
    ∃ table f t, checkSettings .strict (.table [(Setting.encoding, .text "rot13".toList)]) =
        .ok (table, []) ∧
      Compiler.passthrough.Total ∧
      (Compile.compiledBefore (Utf8.encode ['x'])).Reads "r/a.tea".toList (Utf8.encode ['x']) ∧
      (Compile.compileFile .passthrough (Profile.ofTable table)
        ⟨"r/a.tea".toList, "r/a.php".toList⟩).runOn (Compile.compiledBefore (Utf8.encode ['x'])) =
          (.error f, t) ∧
      f.kind = "LookupError" :=
  ⟨Setting.defaults.set Setting.encoding (.text "rot13".toList), .notTextEncoding "rot13".toList, _,
    rfl, fun _ => ⟨_, rfl⟩, ⟨by decide, rfl, by cbv⟩, Prod.ext (by cbv) rfl, rfl⟩

end Inlay
