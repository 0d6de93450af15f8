import VirtualShell.Proofs.Path.Resolution
import VirtualShell.Proofs.Session.Writing
import VirtualShell.Proofs.Shell.Single
import VirtualShell.Proofs.Text.Lines
import VirtualShell.Terminal.Console

/-!
# Files saved by the editor

The editor opens a file with its lines, and saves them with a newline behind each. A file that is saved before anything
was typed has the same lines as before; its content is the same, up to a newline at its end, if it had no other line
breaks than newlines, and only then: `saving_exact`.
-/
namespace VirtualShell
set_option autoImplicit false

def resaved (content : String) : String := String.ofList (Text.rewritten content.toList)

theorem linesOf_resaved (content : String) : linesOf (resaved content) = linesOf content := by
  rw [linesOf, resaved, String.toList_ofList, Text.linesFrom_rewritten, linesOf]

namespace Editor

theorem intercalate_newline (l : List Char) (lines : List (List Char)) :
    ['\n'].intercalate (l :: lines) ++ ['\n'] = (l :: lines).flatMap (· ++ ['\n']) := by
  induction lines generalizing l with
  | nil => simp [List.intercalate]
  | cons m lines ih =>
    rw [List.flatMap_cons, ← ih m]
    simp [List.intercalate]

/-- Before anything is typed, the editor would save the lines that it has read. -/
theorem content_ofRequest (request : EditorRequest) : (ofRequest request).content = resaved request.content := by
  apply String.toList_inj.mp
  rw [resaved, String.toList_ofList, Text.rewritten, content, ofRequest, linesOf]
  cases hLines : Text.linesFrom [] request.content.toList with
  | nil => rfl
  | cons l lines =>
    rw [← intercalate_newline]
    simp [Function.comp_def]

variable {e : Editor} {s t : Session}

theorem save_written {target : String}
    (h : (Session.writeFile (some e.path) e.content false).run s = (.ok target, t)) :
    ∃ shown, e.save s = .ok (t, shown) :=
  ⟨_, by rw [save, h]⟩

theorem save_refused {r : Refusal}
    (h : (Session.writeFile (some e.path) e.content false).run s = (.error (.refused r), t)) :
    ∃ shown, e.save s = .ok (t, shown) :=
  ⟨_, by rw [save, h]⟩

end Editor

namespace Session

variable {s : Session} {path full content : String} {i : Info}

/-- The user may read the file at a path, in which `content` is, and may write it. -/
structure Editable (s : Session) (path content : String) : Prop where
  readable : s.readFile (some path) = .ok content
  writable : ∃ n, s.lookup (s.resolve (some path)) = some n ∧ s.subject.may .write n = .ok true

/-- `t` is the session `s` after the file at a path, with `content` in it, was opened and saved. A file whose path has
characters that no new name may have is not written. -/
def Resaved (s : Session) (full content : String) (t : Session) : Prop :=
  if Path.hasUnsafe full then t = s else s.Rewritten full content (resaved content) t

theorem reach_of_readFile (h : s.readFile (some path) = .ok content) :
    ∃ i, s.reach (s.resolve (some path)) (some path) = .ok (.file i content) := by
  unfold readFile at h
  obtain ⟨n, hReach, h⟩ := Result.exists_of_bind_ok h
  cases n with
  | dir i es => cases h
  | file i c =>
    obtain ⟨may, -, h⟩ := Result.exists_of_bind_ok h
    cases may with
    | false => cases h
    | true =>
      cases h
      exact ⟨i, hReach⟩

theorem Editable.exists_file (h : s.Editable path content) :
    ∃ i, s.reach (s.resolve (some path)) (some path) = .ok (.file i content) ∧
      s.lookup (s.resolve (some path)) = some (.file i content) ∧
      s.subject.may .write (.file i content) = .ok true := by
  obtain ⟨hRead, n, hLookup, hMay⟩ := h
  obtain ⟨i, hReach⟩ := reach_of_readFile hRead
  cases (lookup_of_reach hReach).symm.trans hLookup
  exact ⟨i, hReach, hLookup, hMay⟩

theorem editable_of_toOption (hRead : (s.readFile (some path)).toOption = some content)
    (hMay : ((s.lookup (s.resolve (some path))).map fun n => (s.subject.may .write n).toOption) = some (some true)) :
    s.Editable path content := by
  obtain ⟨n, hLookup, hMay⟩ := Option.map_eq_some_iff.mp hMay
  exact ⟨Result.toOption_eq_some_iff.mp hRead, n, hLookup, Result.toOption_eq_some_iff.mp hMay⟩

theorem openEditor_of_readFile (h : s.readFile (some path) = .ok content) :
    Content.openEditor s path = .ok (.edit ⟨s.resolve (some path), content, false⟩) := by
  obtain ⟨i, hReach⟩ := reach_of_readFile h
  rw [Content.openEditor, stat, hReach]
  dsimp only
  rw [if_neg (show ¬(Node.file i content).isDir = true from Bool.false_ne_true), h]

theorem ne_root_of_file (hRoot : s.root.isDir = true) (hFile : s.lookup full = some (.file i content)) :
    full ≠ "/" := by
  rintro rfl
  have hHere : s.root = .file i content := Option.some_inj.mp hFile
  rw [hHere] at hRoot
  cases hRoot

section

variable (hFull : Path.isCanonical full = true) (hRoot : full ≠ "/")
include hFull hRoot

theorem requireWritePath_of_isCanonical : s.requireWritePath (some full) =
    if Path.hasUnsafe full then refuse (.obstructed (.reach full) .invalidPath) else .ok full := by
  rw [requireWritePath, Path.forWriting_of_isCanonical s.home s.cwd hFull hRoot]
  cases Path.hasUnsafe full with
  | false => rfl
  | true => rfl

theorem writeFile_run_refused (hUnsafe : Path.hasUnsafe full = true) (content : String) :
    (writeFile (some full) content false).run s = (.error (.refused (.obstructed (.reach full) .invalidPath)), s) := by
  have hTarget : s.requireWritePath (some full) = refuse (.obstructed (.reach full) .invalidPath) := by
    rw [requireWritePath_of_isCanonical hFull hRoot, if_pos hUnsafe]
  rw [writeFile, Update.run_session_bind, hTarget]
  rfl

/-- Whoever reaches a file and may write it overwrites it. -/
theorem writeFile_run_file (hSafe : Path.hasUnsafe full = false) {c : String}
    (hReach : s.reach full (some path) = .ok (.file i c)) (hMay : s.subject.may .write (.file i c) = .ok true)
    (content : String) : (writeFile (some full) content false).run s = (.ok full, s.overwrite full content) := by
  obtain ⟨hFile, hSearch⟩ := reach_eq_ok_iff.mp hReach
  have hTarget : s.requireWritePath (some full) = .ok full := by
    rw [requireWritePath_of_isCanonical hFull hRoot, hSafe]
    rfl
  have hPlace := split_ne_nil_of_requireWritePath hTarget
  have hEntry := lookup_entry (s := s) hPlace
  rw [hFile] at hEntry
  obtain ⟨parent, hParent, hChild⟩ := Option.bind_eq_some_iff.mp hEntry
  refine writeFile_run_iff.mpr ⟨hTarget, parent, ?_, .inl ⟨i, c, hChild, hMay, rfl⟩⟩
  refine reachDirectory_eq_ok_iff.mpr ⟨hParent, Node.isDir_of_child? hChild, ?_⟩
  -- the way to the directory is a part of the way to the file
  intro ds rest d hParts hRest hd
  refine hSearch ds (rest ++ [Path.baseName full]) d ?_ (by simp) hd
  rw [Path.split_eq_concat hPlace, hParts, List.append_assoc]

end

theorem nano_run {call : Call} {more : List String} (hArgs : call.args = path :: more)
    (h : s.readFile (some path) = .ok content) :
    (Content.nano call).run s = (.ok (.edit ⟨s.resolve (some path), content, false⟩), s) := by
  rw [Content.nano, hArgs]
  dsimp only
  rw [Act.run_bind, Act.inspect, Act.run_attempt, Update.run_look, openEditor_of_readFile h]
  rfl

/-- An editor in which nothing was typed saves the lines that it has read. -/
theorem Editable.save {e : Editor} (hCwd : Path.isCanonical s.cwd = true) (hRoot : s.root.isDir = true)
    (h : s.Editable path content) (hPath : e.path = s.resolve (some path)) (hContent : e.content = resaved content) :
    ∃ t shown, e.save s = .ok (t, shown) ∧ s.Resaved e.path content t := by
  obtain ⟨i, hReach, hFile, hMay⟩ := h.exists_file
  have hFull : Path.isCanonical e.path = true := hPath ▸ Path.isCanonical_resolve s.home (some path) hCwd
  rw [← hPath] at hFile hReach
  have hBelow := ne_root_of_file hRoot hFile
  cases hUnsafe : Path.hasUnsafe e.path with
  | false =>
    obtain ⟨shown, hSave⟩ := Editor.save_written (writeFile_run_file hFull hBelow hUnsafe hReach hMay e.content)
    refine ⟨_, shown, hSave, ?_⟩
    rw [Resaved, hUnsafe, hContent]
    exact rewritten_overwrite hFile (resaved content)
  | true =>
    obtain ⟨shown, hSave⟩ := Editor.save_refused (writeFile_run_refused hFull hBelow hUnsafe e.content)
    refine ⟨s, shown, hSave, ?_⟩
    rw [Resaved, if_pos hUnsafe]

/-- The file has kept its content, but for a newline at the end of a text that had none. -/
def Keeps (full content : String) (t : Session) : Prop :=
  ∃ i new, t.lookup full = some (.file i new) ∧ Text.SameButEnd content.toList new.toList

/-- The content is kept if it could not be written, or if its only line breaks are newlines. -/
theorem Resaved.keeps_iff {t : Session} (hFile : s.lookup full = some (.file i content))
    (h : s.Resaved full content t) : t.Keeps full content ↔
      Path.hasUnsafe full = true ∨ ∀ c ∈ content.toList, Text.isLineBreak c = true → c = '\n' := by
  have hLookup {new : String} (hNew : ∃ j, t.lookup full = some (.file j new)) :
      t.Keeps full content ↔ Text.SameButEnd content.toList new.toList := by
    obtain ⟨j, hNew⟩ := hNew
    constructor
    · rintro ⟨k, new', hNew', hSame⟩
      cases hNew.symm.trans hNew'
      exact hSame
    · exact fun hSame => ⟨j, new, hNew, hSame⟩
  rw [Resaved] at h
  split at h
  · rename_i hUnsafe
    subst h
    rw [hLookup ⟨i, hFile⟩]
    exact ⟨fun _ => .inl hUnsafe, fun _ => .inl rfl⟩
  · rename_i hSafe
    obtain ⟨j, -, hNew⟩ := h.file
    rw [hLookup ⟨_, hNew⟩, resaved, String.toList_ofList, Text.sameButEnd_rewritten_iff]
    exact (or_iff_right hSafe).symm

end Session

namespace Shell

/-- The editor is asked to open a file that may be read. -/
theorem run_nano {line path content : String} {stage : Line.Stage} {more : List String} {sh : Shell}
    (hLine : Line.parse line = .command stage none) (hName : Utility.ofName? stage.name = some .nano)
    (hArgs : stage.args = path :: more) (h : sh.session.readFile (some path) = .ok content) (o : ShellOptions)
    (markup : Bool) : ∃ after, sh.run o markup line =
      (.ok (.edit ⟨sh.session.resolve (some path), content, false⟩), after) ∧ after.session = sh.session := by
  have hAct : (Utility.nano.act ⟨stage, none, markup⟩).run sh.session =
      (.ok (.edit ⟨sh.session.resolve (some path), content, false⟩), sh.session) :=
    Session.nano_run hArgs h
  have hCap (request : EditorRequest) (limit : Int) : (Reply.edit request).cap limit = .edit request := by
    refine if_pos ?_
    have hEmpty : ((Reply.edit request).output.length : Int) = 0 := rfl
    rw [hEmpty]
    simp [Int.le_total limit 0]
  rw [run_command hLine hName (by decide) rfl, perform, hAct]
  dsimp only
  exact ⟨_, by rw [hCap], session_countRun _ _ _⟩

end Shell

namespace Console

structure Opens (c : Console) (line path : String) : Prop where
  prompting : c.stance = .prompting
  command : ∃ stage more, Line.parse line = .command stage none ∧ Utility.ofName? stage.name = some .nano ∧
    stage.args = path :: more

variable {c : Console} {line path content : String}

/-- A file is opened with its lines, which nothing has been done to yet. -/
theorem feed_nano (hOpens : c.Opens line path) (h : c.shell.session.readFile (some path) = .ok content)
    (settings : Settings) :
    (c.feed settings line).1.shell.session = c.shell.session ∧ (c.feed settings line).1.stance =
      .editing (Editor.ofRequest ⟨c.shell.session.resolve (some path), content, false⟩) := by
  obtain ⟨hPrompt, stage, more, hLine, hName, hArgs⟩ := hOpens
  obtain ⟨after, hRun, hSession⟩ := Shell.run_nano hLine hName hArgs h (settingsOf settings) settings.markup
  rw [feed, hPrompt]
  dsimp only
  rw [hRun]
  exact ⟨hSession, rfl⟩

theorem feed_save {e : Editor} {s t : Session} {shown : String} (hSession : c.shell.session = s)
    (hEdit : c.stance = .editing e) (h : e.save s = .ok (t, shown)) (settings : Settings) :
    (c.feed settings "/save").1.shell.session = t ∧ (c.feed settings "/save").1.stance = .editing e := by
  have hOrder : Editor.Order.ofLine "/save" = .save := by decide
  subst hSession
  rw [feed, hEdit]
  dsimp only
  rw [Editor.feed, hOrder]
  dsimp only
  rw [h]
  exact ⟨rfl, rfl⟩

theorem feed_nano_save (hCwd : Path.isCanonical c.shell.session.cwd = true) (hRoot : c.shell.session.root.isDir = true)
    (hOpens : c.Opens line path) (hEdit : c.shell.session.Editable path content) (settings : Settings) :
    ((c.feed settings line).1.feed settings "/save").1.stance = (c.feed settings line).1.stance ∧
      c.shell.session.Resaved (c.shell.session.resolve (some path)) content
        ((c.feed settings line).1.feed settings "/save").1.shell.session := by
  obtain ⟨hSession, hStance⟩ := feed_nano hOpens hEdit.readable settings
  obtain ⟨t, shown, hSave, hResaved⟩ := hEdit.save hCwd hRoot
    (e := Editor.ofRequest ⟨c.shell.session.resolve (some path), content, false⟩) rfl (Editor.content_ofRequest _)
  obtain ⟨hAfter, hOpen⟩ := feed_save hSession hStance hSave settings
  rw [hAfter, hOpen]
  exact ⟨hStance.symm, hResaved⟩

/-- A file that is saved as soon as it was opened has the lines that it had, each with a newline behind it, and
nothing else has changed. Its content is what it was, up to a newline at its end, if and only if it has no line breaks
other than newlines, or could not be saved. -/
theorem saving_exact (hCwd : Path.isCanonical c.shell.session.cwd = true) (hRoot : c.shell.session.root.isDir = true)
    (hOpens : c.Opens line path) (hEdit : c.shell.session.Editable path content) (settings : Settings) :
    let s := c.shell.session
    let full := s.resolve (some path)
    let opened := (c.feed settings line).1
    let saved := (opened.feed settings "/save").1
    opened.shell.session = s ∧ opened.stance = .editing ⟨full, linesOf content⟩ ∧ saved.stance = opened.stance ∧
      s.Resaved full content saved.shell.session ∧ linesOf (resaved content) = linesOf content ∧
      (saved.shell.session.Keeps full content ↔
        Path.hasUnsafe full = true ∨ ∀ c ∈ content.toList, Text.isLineBreak c = true → c = '\n') := by
  intro s full opened saved
  obtain ⟨hSession, hStance⟩ := feed_nano hOpens hEdit.readable settings
  obtain ⟨hOpen, hSaved⟩ := feed_nano_save hCwd hRoot hOpens hEdit settings
  obtain ⟨i, -, hFile, -⟩ := hEdit.exists_file
  exact ⟨hSession, hStance, hOpen, hSaved, linesOf_resaved content, hSaved.keeps_iff hFile⟩

/-- A file that ends in no newline gets one. -/
theorem note_kept : ∃ settings s, Settings.ofEnvironment ⟨"/", "/root"⟩ [] = .ok settings ∧
    ((Session.fresh? "user" 0.0).map fun s => ((Session.writeFile (some "f") "a\nb" false).run s).2) = some s ∧
    (let c : Console := ⟨⟨s, []⟩, .prompting⟩
      let opened := (c.feed settings "nano f").1
      let saved := (opened.feed settings "/save").1
      opened.stance = .editing ⟨"/home/user/f", ["a", "b"]⟩ ∧
        s.Rewritten "/home/user/f" "a\nb" "a\nb\n" saved.shell.session ∧
        saved.shell.session.Keeps "/home/user/f" "a\nb") := by
  have hFacts : ((Session.fresh? "user" 0.0).map fun s =>
      ((Session.writeFile (some "f") "a\nb" false).run s).2).map (fun s =>
      ((Path.isCanonical s.cwd, s.root.isDir, s.resolve (some "f")), (s.readFile (some "f")).toOption,
        (s.lookup (s.resolve (some "f"))).map fun n => (s.subject.may .write n).toOption)) =
      some ((true, true, "/home/user/f"), some "a\nb", some (some true)) := by
    decide +kernel
  obtain ⟨s, hWritten, hFacts⟩ := Option.map_eq_some_iff.mp hFacts
  simp only [Prod.mk.injEq] at hFacts
  obtain ⟨⟨hCwd, hRoot, hFull⟩, hRead, hMay⟩ := hFacts
  obtain ⟨settings, hSettings⟩ : ∃ settings, Settings.ofEnvironment ⟨"/", "/root"⟩ [] = .ok settings := ⟨_, rfl⟩
  have hOpens : (⟨⟨s, []⟩, .prompting⟩ : Console).Opens "nano f" "f" :=
    ⟨rfl, ⟨"nano", ["f"], [], "nano f"⟩, [], by decide +kernel, by decide, rfl⟩
  obtain ⟨-, hStance, -, hResaved, -, hKeeps⟩ :=
    saving_exact (c := ⟨⟨s, []⟩, .prompting⟩) hCwd hRoot hOpens (Session.editable_of_toOption hRead hMay) settings
  rw [hFull] at hStance hResaved hKeeps
  have hAll : "a\nb".toList.all (fun c => !Text.isLineBreak c || c == '\n') = true := by decide
  have hBreaks : ∀ c ∈ "a\nb".toList, Text.isLineBreak c = true → c = '\n' := fun c hc hBreak => by
    simpa [hBreak] using List.all_eq_true.mp hAll c hc
  exact ⟨settings, s, hSettings, hWritten, hStance, hResaved, hKeeps.mpr (.inr hBreaks)⟩

/-- The line breaks of another system do not come back. -/
theorem not_kept : ¬∀ (settings : Settings) (c : Console) (line path content : String),
    Path.isCanonical c.shell.session.cwd = true → c.shell.session.root.isDir = true → c.Opens line path →
    c.shell.session.Editable path content →
    ((c.feed settings line).1.feed settings "/save").1.shell.session.Keeps (c.shell.session.resolve (some path))
      content := by
  intro h
  have hFacts : ((Session.fresh? "user" 0.0).map fun s =>
      ((Session.writeFile (some "f") "a\r\nb\r\n" false).run s).2).map (fun s =>
      ((Path.isCanonical s.cwd, s.root.isDir, Path.hasUnsafe (s.resolve (some "f"))),
        (s.readFile (some "f")).toOption,
        (s.lookup (s.resolve (some "f"))).map fun n => (s.subject.may .write n).toOption)) =
      some ((true, true, false), some "a\r\nb\r\n", some (some true)) := by
    decide +kernel
  obtain ⟨s, -, hFacts⟩ := Option.map_eq_some_iff.mp hFacts
  simp only [Prod.mk.injEq] at hFacts
  obtain ⟨⟨hCwd, hRoot, hSafe⟩, hRead, hMay⟩ := hFacts
  obtain ⟨settings, -⟩ : ∃ settings, Settings.ofEnvironment ⟨"/", "/root"⟩ [] = .ok settings := ⟨_, rfl⟩
  have hOpens : (⟨⟨s, []⟩, .prompting⟩ : Console).Opens "nano f" "f" :=
    ⟨rfl, ⟨"nano", ["f"], [], "nano f"⟩, [], by decide +kernel, by decide, rfl⟩
  have hEdit : s.Editable "f" "a\r\nb\r\n" := Session.editable_of_toOption hRead hMay
  obtain ⟨i, -, hFile, -⟩ := hEdit.exists_file
  obtain ⟨-, hSaved⟩ := feed_nano_save (c := ⟨⟨s, []⟩, .prompting⟩) hCwd hRoot hOpens hEdit settings
  have hKeeps := h settings ⟨⟨s, []⟩, .prompting⟩ "nano f" "f" _ hCwd hRoot hOpens hEdit
  rcases (hSaved.keeps_iff hFile).mp hKeeps with hUnsafe | hBreaks
  · cases hSafe.symm.trans hUnsafe
  · exact absurd (hBreaks '\r' (by decide) (by decide)) (by decide)

end Console

end VirtualShell
