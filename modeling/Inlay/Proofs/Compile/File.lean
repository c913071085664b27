import Inlay.Command.Compile
import Inlay.Proofs.Fragment.Rejection
import Inlay.Proofs.Volume.Additions
import Inlay.Proofs.Workspace.Folders

/-!
# Compiling one file

What `compileFile` does to a tree without faults. Nothing is written before the source has been
decoded and transformed (`runOn_compileFile`), and then the folders around the output are made and
the output is written as a whole, or stays empty if it cannot be encoded (`exists_runOn_deliver`).
-/

namespace Inlay.Compile

variable [Host]

open Inlay.Action

/-- A source compiles to some bytes. -/
def Compiles (compiler : Compiler) (profile : Profile) (codec : Codec) (source : Path)
    (content bytes : Bytes) : Prop :=
  ∃ text output, codec.decode content = .ok text ∧
    transform compiler profile.tags source text = .ok output ∧ codec.encode output = .ok bytes

/-- The part of `compileFile` that comes after the transformation. -/
def deliver (job : Job) (output encoding : Text) : Action Unit := do
  Action.ensureParent job.output
  Action.writeOutput job.output output encoding
  Action.log Level.debug logger s!"Compiled '{str job.source}' -> '{str job.output}'"

variable {s : Workspace} {encoding : Text} {codec : Codec}

/-! ### Reading and writing -/

/-- What is read under a name of an encoding, by what the volume gives. -/
def decoded (encoding : Text) (path : Path) : Except Errno Bytes → Except Failure Text
  | .error e => .error (.os (.of e path))
  | .ok bytes => match Encoding.find? encoding with
    | some (.text codec) => match codec.decode bytes with
      | .ok text => .ok text
      | .error f => .error (.codec f)
    | some .other => .error (.notTextEncoding encoding)
    | none => .error (.unknownEncoding encoding)

/-- What is read of a source, by the fault of the operation and what the volume gives. -/
def sourceText (path : Path) (encoding : Text) (fault : Option Errno)
    (content : Except Errno Bytes) : Except Failure Text :=
  match fault, Encoding.nameFault? encoding, Path.refusal? path with
  | some e, _, _ => .error (.os (.of e path))
  | none, some f, _ => .error (.codec f)
  | none, none, refusal? =>
    if encoding.contains '\x00' then .error .zeroInName
    else match refusal? with
      | some refusal => .error (.noPath refusal)
      | none => decoded encoding path content

theorem runOn_readText (path : Path) (encoding : Text) (s : Workspace) :
    (readText path encoding).runOn s =
      (sourceText path encoding none (s.volume.read path), s) := by
  unfold readText sourceText checkName
  cases Encoding.nameFault? encoding with
  | some f => rfl
  | none =>
    dsimp only
    split
    · rfl
    · rw [runOn_bind_of_ok (runOn_pure () s)]
      unfold readBytes
      cases hr : Path.refusal? path with
      | some refusal =>
        exact runOn_bind_of_error (runOn_bind_of_error (runOn_reach_of_refused hr s))
      | none =>
        have hbytes := runOn_readBytes (Path.refusal?_eq_none_iff.1 hr) s
        unfold readBytes at hbytes
        dsimp only
        rw [runOn_bind, hbytes]
        cases s.volume.read path with
        | error e => rfl
        | ok bytes =>
          unfold decoded Action.codec
          dsimp only
          cases Encoding.find? encoding with
          | none => rfl
          | some found =>
            cases found with
            | other => rfl
            | text codec =>
              rw [runOn_bind_of_ok (runOn_pure codec s)]
              dsimp only
              cases codec.decode bytes with
              | ok text => rfl
              | error f => rfl

theorem runOn_readSource_planned (path : Path) (encoding : Text) (s : Workspace) :
    (readSource path encoding).runOn s =
      (sourceText path encoding (planned .read path s.faults).1 (s.volume.read path),
        { s with faults := (planned .read path s.faults).2 }) := by
  unfold readSource
  rw [runOn_bind, runOn_guard]
  cases (planned .read path s.faults).1 with
  | some e => rfl
  | none => exact runOn_readText ..

theorem of_decoded {path : Path} {content : Except Errno Bytes} {text : Text}
    (h : decoded encoding path content = .ok text) :
    ∃ codec bytes, Encoding.find? encoding = some (.text codec) ∧ content = .ok bytes ∧
      codec.decode bytes = .ok text := by
  unfold decoded at h
  split at h
  · simp at h
  · split at h
    · next codec hfind =>
      split at h
      · next decoded hd => exact ⟨codec, _, hfind, rfl, by rw [hd, Except.ok.inj h]⟩
      · simp at h
    · simp at h
    · simp at h

/-- A source that has been read was decoded by the codec of that name. -/
theorem of_sourceText {path : Path} {fault : Option Errno} {content : Except Errno Bytes}
    {text : Text} (h : sourceText path encoding fault content = .ok text) :
    Encoding.IsName encoding ∧ Path.IsUsable path ∧
      ∃ codec bytes, Encoding.find? encoding = some (.text codec) ∧ content = .ok bytes ∧
        codec.decode bytes = .ok text := by
  unfold sourceText at h
  split at h
  · simp at h
  · simp at h
  · next hname =>
    split at h
    · simp at h
    · next hz =>
      split at h
      · simp at h
      · next hr =>
        obtain ⟨codec, bytes, hfind, hrest⟩ := of_decoded h
        exact ⟨⟨hname, by simpa using hz, by rw [hfind]; rfl⟩, Path.refusal?_eq_none_iff.1 hr,
          codec, bytes, hfind, hrest⟩

theorem sourceText_of_ok (hn : Encoding.IsName encoding)
    (hc : Encoding.find? encoding = some (.text codec)) {path : Path} (hu : Path.IsUsable path)
    (content : Bytes) :
    sourceText path encoding none (.ok content) =
      match codec.decode content with
      | .ok text => .ok text
      | .error f => .error (.codec f) := by
  have hz : ¬ encoding.contains '\x00' = true := by simpa using hn.zeroFree
  simp only [sourceText, hn.encodable, Path.refusal?_eq_none_iff.2 hu, if_neg hz, decoded, hc]

theorem isOfFile_of_decoded {path : Path} {content : Except Errno Bytes} {f : Failure}
    (h : decoded encoding path content = .error f) : f.isOfFile = true := by
  unfold decoded at h
  split at h
  · rw [← Except.error.inj h]
    rfl
  · split at h
    · split at h
      · simp at h
      · rw [← Except.error.inj h]
        rfl
    · rw [← Except.error.inj h]
      rfl
    · rw [← Except.error.inj h]
      rfl

theorem isOfFile_of_sourceText (hz : '\x00' ∉ encoding) {path : Path} (hu : Path.IsUsable path)
    {fault : Option Errno} {content : Except Errno Bytes} {f : Failure}
    (h : sourceText path encoding fault content = .error f) : f.isOfFile = true := by
  have hname : ¬ encoding.contains '\x00' = true := by simpa using hz
  unfold sourceText at h
  rw [Path.refusal?_eq_none_iff.2 hu] at h
  split at h
  · rw [← Except.error.inj h]
    rfl
  · rw [← Except.error.inj h]
    rfl
  · rw [if_neg hname] at h
    exact isOfFile_of_decoded h

/-- What is to be written for a source. -/
def outputText (compiler : Compiler) (profile : Profile) (path : Path) (encoding : Text)
    (fault : Option Errno) (content : Except Errno Bytes) : Except Failure Text :=
  (sourceText path encoding fault content).bind (transform compiler profile.tags path)

/-- A text for an output was read, decoded and transformed. -/
theorem of_outputText {compiler : Compiler} {profile : Profile} {path : Path}
    {fault : Option Errno} {content : Except Errno Bytes} {output : Text}
    (h : outputText compiler profile path encoding fault content = .ok output) :
    Encoding.IsName encoding ∧ ∃ codec bytes text, Encoding.find? encoding = some (.text codec) ∧
      content = .ok bytes ∧ codec.decode bytes = .ok text ∧
      transform compiler profile.tags path text = .ok output := by
  unfold outputText at h
  cases hs : sourceText path encoding fault content with
  | error f => simp [hs, Except.bind] at h
  | ok text =>
    obtain ⟨hn, _, codec, bytes, hc, hcontent, hd⟩ := of_sourceText hs
    exact ⟨hn, codec, bytes, text, hc, hcontent, hd, by simpa [hs, Except.bind] using h⟩

theorem isOfFile_of_outputText (hz : '\x00' ∉ encoding) {compiler : Compiler}
    (hc : compiler.FailsAsFile) {profile : Profile} {path : Path} (hu : Path.IsUsable path)
    {fault : Option Errno} {content : Except Errno Bytes} {f : Failure}
    (h : outputText compiler profile path encoding fault content = .error f) :
    f.isOfFile = true := by
  unfold outputText at h
  cases hs : sourceText path encoding fault content with
  | error g =>
    simp only [hs, Except.bind, Except.error.injEq] at h
    rw [← h]
    exact isOfFile_of_sourceText hz hu hs
  | ok text =>
    simp only [hs, Except.bind] at h
    exact isOfFile_of_transform hc h

theorem runOn_compileFile_planned {compiler : Compiler} {profile : Profile}
    (he : profile.encoding = some encoding) (job : Job) (s : Workspace) :
    (compileFile compiler profile job).runOn s =
      match outputText compiler profile job.source encoding (planned .read job.source s.faults).1
        (s.volume.read job.source) with
      | .error f => (.error f, { s with faults := (planned .read job.source s.faults).2 })
      | .ok output => (deliver job output encoding).runOn
          { s with faults := (planned .read job.source s.faults).2 } := by
  unfold compileFile outputText
  rw [runOn_bind_of_ok (runOn_need_some he s), runOn_bind, runOn_readSource_planned]
  cases sourceText job.source encoding (planned .read job.source s.faults).1
      (s.volume.read job.source) with
  | error f => rfl
  | ok text =>
    simp only [Except.bind]
    cases transform compiler profile.tags job.source text with
    | error f => rfl
    | ok output => rfl

theorem runOn_compileFile {compiler : Compiler} {profile : Profile} {job : Job}
    (hs : s.faults = []) (he : profile.encoding = some encoding) (hn : Encoding.IsName encoding)
    (hc : Encoding.find? encoding = some (.text codec)) {content : Bytes}
    (hu : Path.IsUsable job.source) (hread : s.volume.read job.source = .ok content) :
    (compileFile compiler profile job).runOn s =
      match codec.decode content with
      | .error f => (.error (.codec f), s)
      | .ok text => match transform compiler profile.tags job.source text with
        | .error f => (.error f, s)
        | .ok output => (deliver job output encoding).runOn s := by
  have hplan : planned .read job.source s.faults = (none, s.faults) := by rw [hs, planned]
  rw [runOn_compileFile_planned he, hplan, hread, outputText, sourceText_of_ok hn hc hu]
  cases codec.decode content with
  | error f => rfl
  | ok text =>
    simp only [Except.bind]

/-! ### Delivering -/

/-- How writing a text to a file ends, and what is in the file then. -/
def stored (codec : Codec) (output : Text) : Except Failure Unit × Bytes :=
  match codec.encode output with
  | .ok bytes => (.ok (), bytes)
  | .error f => (.error (.codec f), [])

section
variable (h : s.volume.Tree) (hs : s.faults = []) {root : Path} (hr : Path.Tidied root)
  {place : Place} (hl : s.volume.Leads root place) (hp : s.volume.get? place = some .folder)
  {names : List Text} {name : Text} (hn : ∀ n ∈ names, Path.IsName n)
  (hu : ∀ n ∈ names ++ [name], Path.IsUsable n)
  (hopen : ∀ lead, lead <+: names → ¬ s.volume.FileAt (place ++ lead))
include h hs hr hl hp hn hu hopen

theorem exists_runOn_deliver (he : Encoding.IsName encoding)
    (hc : Encoding.find? encoding = some (.text codec)) (hname : Path.IsName name)
    (hfree : s.volume.get? (place ++ (names ++ [name])) = none) (source : Path) (output : Text) :
    ∃ w t, (deliver ⟨source, Path.descend root (names ++ [name])⟩ output encoding).runOn s =
        ((stored codec output).1, t) ∧ t.faults = [] ∧ s.volume.Grown w place names ∧
      t.volume = w.put (place ++ (names ++ [name])) (.file (stored codec output).2) := by
  obtain ⟨hfolders, hlast⟩ := List.forall_mem_append.1 hu
  rw [List.forall_mem_singleton] at hlast
  have hpath := Path.isUsable_descend (h.sound.isUsable_of_leads hl) hu
  obtain ⟨t, ht, htf, hg⟩ :=
    exists_runOn_ensureParent h hs hr hl hp hn hfolders hname.isPiece hopen
  have hlt := hg.extends'.leads h hg.tree hl
  have hft := (hg.get?_beyond name).trans hfree
  have hfirst := hg.tree.write_descend hlt hname hg.folder (by rw [hft]; simp) []
  -- The file is written a second time, over the empty one.
  have hadd := (h.added place).file hg hname hlast hfree []
  have hlu := hadd.extends'.leads h hadd.tree hl
  have hne : place ++ (names ++ [name]) ≠ [] := by simp
  have hfolder : (t.volume.put (place ++ (names ++ [name])) (.file [])).get? (place ++ names) =
      some .folder := by
    rw [Volume.get?_put hne, if_neg (by simp), hg.folder]
  have hsecond (bytes : Bytes) := hadd.tree.write_descend hlu hname hfolder
    (by rw [Volume.get?_put hne, if_pos rfl]; simp) bytes
  simp only [Volume.put_put] at hsecond
  have hwrite : (writeOutput (Path.descend root (names ++ [name])) output encoding).runOn t =
      ((stored codec output).1, { t with
        volume := t.volume.put (place ++ (names ++ [name])) (.file (stored codec output).2) }) := by
    unfold writeOutput writeText stored
    rw [runOn_bind_of_ok (runOn_guard_of_nil htf .write _),
      runOn_bind_of_ok (runOn_checkName he t),
      runOn_bind_of_ok (by rw [runOn_onVolume hpath, hfirst]),
      runOn_bind_of_ok (runOn_codec hc _)]
    cases codec.encode output with
    | error f => rfl
    | ok bytes => simp only [runOn_onVolume hpath, hsecond]
  unfold deliver
  rw [runOn_bind_of_ok ht, runOn_bind, hwrite]
  cases (stored codec output).1 with
  | error f => exact ⟨t.volume, _, rfl, htf, hg, rfl⟩
  | ok _ =>
    exact ⟨t.volume, _, runOn_log _ _ _ _, by rw [Workspace.logged_faults, htf], hg,
      Workspace.logged_volume _ _⟩

theorem exists_runOn_deliver_error (hc : Encoding.IsName encoding) (hname : Path.IsPiece name)
    (source : Path) (output : Text) {e : Errno}
    (he : ∀ w, s.volume.Grown w place names →
      w.write (Path.descend root (names ++ [name])) [] = .error e) :
    ∃ f t, (deliver ⟨source, Path.descend root (names ++ [name])⟩ output encoding).runOn s =
        (.error (.os f), t) ∧ t.faults = [] ∧ s.volume.Grown t.volume place names := by
  obtain ⟨t, ht, htf, hg⟩ :=
    exists_runOn_ensureParent h hs hr hl hp hn (List.forall_mem_append.1 hu).1 hname hopen
  have hpath := Path.isUsable_descend (h.sound.isUsable_of_leads hl) hu
  have hwrite : (writeOutput (Path.descend root (names ++ [name])) output encoding).runOn t =
      (.error (.os (.of e (Path.descend root (names ++ [name])))), t) := by
    unfold writeOutput writeText
    rw [runOn_bind_of_ok (runOn_guard_of_nil htf .write _), runOn_bind_of_ok (runOn_checkName hc t)]
    exact runOn_bind_of_error (by rw [runOn_onVolume hpath, he t.volume hg])
  refine ⟨.of e (Path.descend root (names ++ [name])), t, ?_, htf, hg⟩
  unfold deliver
  rw [runOn_bind_of_ok ht]
  exact runOn_bind_of_error hwrite

end

/-! ### What a success says -/

theorem of_runOn_deliver {job : Job} {output : Text} {t : Workspace}
    (hc : Encoding.find? encoding = some (.text codec))
    (h : (deliver job output encoding).runOn s = (.ok (), t)) :
    Path.IsUsable job.output ∧ ∃ bytes, codec.encode output = .ok bytes := by
  unfold deliver at h
  obtain ⟨_, s₁, _, hrest⟩ := exists_of_runOn_bind h
  obtain ⟨_, s₂, hwrite, _⟩ := exists_of_runOn_bind hrest
  unfold writeOutput writeText at hwrite
  obtain ⟨_, s₃, _, hcheck⟩ := exists_of_runOn_bind hwrite
  obtain ⟨_, s₄, _, hempty⟩ := exists_of_runOn_bind hcheck
  obtain ⟨_, s₅, hfirst, hcodec⟩ := exists_of_runOn_bind hempty
  obtain ⟨hu, _⟩ := of_runOn_onVolume hfirst
  rw [runOn_bind_of_ok (runOn_codec hc s₅)] at hcodec
  cases he : codec.encode output with
  | ok bytes => exact ⟨hu, bytes, rfl⟩
  | error f => simp [he] at hcodec

theorem of_runOn_compileFile {compiler : Compiler} {profile : Profile}
    (he : profile.encoding = some encoding) (h : s.volume.Tree) (hs : s.faults = []) {root : Path}
    (hr : Path.Tidied root) {place : Place} (hl : s.volume.Leads root place)
    (hp : s.volume.get? place = some .folder) {names : List Text} {name : Text}
    (hn : ∀ n ∈ names, Path.IsName n) (hname : Path.IsPiece name)
    (hopen : ∀ lead, lead <+: names → ¬ s.volume.FileAt (place ++ lead))
    {source : Path} {content : Bytes} (hread : s.volume.read source = .ok content) {t : Workspace}
    (hrun : (compileFile compiler profile ⟨source, Path.descend root (names ++ [name])⟩).runOn s =
      (.ok (), t)) :
    ∃ codec bytes, Encoding.find? encoding = some (.text codec) ∧
      Compiles compiler profile codec source content bytes ∧ Path.IsName name ∧
      (∀ n ∈ names ++ [name], Path.IsUsable n) ∧
      s.volume.get? (place ++ (names ++ [name])) ≠ some .folder := by
  have hplan : planned .read source s.faults = (none, s.faults) := by rw [hs, planned]
  rw [runOn_compileFile_planned he, hplan] at hrun
  split at hrun
  · simp at hrun
  · next output houtput =>
    obtain ⟨hencoding, codec, bytes, text, hc, hcontent, hd, ht⟩ := of_outputText houtput
    obtain rfl : content = bytes := Except.ok.inj (hread.symm.trans hcontent)
    obtain ⟨hpath, written, hb⟩ := of_runOn_deliver hc hrun
    have hpieces := List.forall_mem_append.2 ⟨Path.isPiece_of_isName hn,
      List.forall_mem_singleton.2 hname⟩
    have hu := Path.isUsable_of_descend hpieces hpath
    -- A name that no file can have, or that a folder has, would be refused.
    have hrefused (e : Errno) (hw : ∀ w, s.volume.Grown w place names →
        w.write (Path.descend root (names ++ [name])) [] = .error e) : False := by
      obtain ⟨f, u, herror, _⟩ :=
        exists_runOn_deliver_error h hs hr hl hp hn hu hopen hencoding hname source output hw
      rw [hrun] at herror
      simp at herror
    have hisName : Path.IsName name := by
      by_contra hnot
      exact hrefused .isFolder fun w hg =>
        hg.tree.write_notName (hg.extends'.leads h hg.tree hl) hname hnot hg.folder []
    refine ⟨codec, written, hc, ⟨text, output, hd, ht, hb⟩, hisName, hu, fun hfolder => ?_⟩
    exact hrefused .isFolder fun w hg => hg.tree.write_folder (hg.extends'.leads h hg.tree hl)
      hisName (hg.extends'.get? _ _ hfolder) []

end Inlay.Compile
