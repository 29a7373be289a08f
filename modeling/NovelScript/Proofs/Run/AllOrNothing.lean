import NovelScript.CommandLine
import NovelScript.Proofs.Run.Replacing

/-!
Runs that import texts or list a script write one file, and only after all that they read and make.
Up to then each step only looks at files (`Looks`), so that an error leaves all of them as they
were (`run_allOrNothing`).
-/

namespace NovelScript

open Outcome

namespace Host

variable {σ : Type} [Host (StateM σ)]

/-- A system whose files are to be seen. What is read is what is there, and a file is written as a
whole or not at all. Both may fail for reasons of their own. -/
structure ShowsFiles (files : σ → FileSystem) : Prop where
  isFile : ∀ path s found s', (Host.isFile path : StateM σ _).run s = (found, s') →
    files s' = files s ∧ found = (files s).isFile path
  pathExists : ∀ path s found s', (Host.pathExists path : StateM σ _).run s = (found, s') →
    files s' = files s ∧ found = (files s).pathExists path
  read : ∀ path s outcome s', (Host.read path : StateM σ _).run s = (outcome, s') →
    files s' = files s ∧ ∀ bytes, outcome = .ok bytes → (files s).read path = .ok bytes
  write_error : ∀ path bytes s e s', (Host.write path bytes : StateM σ _).run s = (.error e, s') →
    files s' = files s
  write_ok : ∀ path bytes s s', (Host.write path bytes : StateM σ _).run s = (.ok (), s') →
    (files s).write path bytes = .ok (files s')

/-- Files that are there are read, and those that can be written are. -/
structure Reliable (files : σ → FileSystem) : Prop where
  read : ∀ path s bytes, (files s).read path = .ok bytes →
    ((Host.read path : StateM σ _).run s).1 = .ok bytes
  write : ∀ path bytes s fs, (files s).write path bytes = .ok fs →
    ((Host.write path bytes : StateM σ _).run s).1 = .ok ()

end Host

namespace Session

theorem change_eq {f : FileSystem → Except FileError FileSystem} {desk desk' : Desk}
    {outcome : Except FileError Unit} (h : change f desk = (outcome, desk')) :
    (∀ e, outcome = .error e → desk'.files = desk.files) ∧
      (outcome = .ok () → f desk.files = .ok desk'.files) := by
  rw [change] at h
  split at h
  · cases h
    exact ⟨nofun, fun _ ↦ ‹_›⟩
  · cases h
    exact ⟨fun _ _ ↦ rfl, nofun⟩

theorem showsFiles : Host.ShowsFiles Desk.files where
  isFile path desk found desk' h := by
    cases h
    exact ⟨rfl, rfl⟩
  pathExists path desk found desk' h := by
    cases h
    exact ⟨rfl, rfl⟩
  read path desk outcome desk' h := by
    cases h
    exact ⟨rfl, fun _ h ↦ h⟩
  write_error path bytes desk e desk' h := (change_eq (f := (·.write path bytes)) h).1 e rfl
  write_ok path bytes desk desk' h := (change_eq (f := (·.write path bytes)) h).2 rfl

theorem reliable : Host.Reliable Desk.files where
  read path desk bytes h := h
  write path bytes desk fs h := by
    change (change (·.write path bytes) desk).1 = .ok ()
    rw [change, h]

end Session

namespace FileSystem

variable (fs : FileSystem)

def text? (path : String) : Option String := do Utf8.decode? (← fs.contents path)

/-- The text of a sheet, or none if its path does not exist. -/
def sheet? (path : String) : Option (Option String) :=
  if fs.pathExists path then some <$> fs.text? path else some none

def script? (path : String) : Option Script := do (Script.load (← fs.contents path)).toOption

variable (settings : Settings)

/-- A script as it is saved with the texts of the sheets that there are. -/
def edited? (script : Script) : Option (List UInt8) := do
  let messages? ← fs.sheet? settings.messagesPath
  let strings? ← fs.sheet? settings.stringsPath
  if messages?.isNone && strings?.isNone then none else
    let script ← (messages?.elim (.ok script) script.importMessages).toOption
    let script ← (strings?.elim (.ok script) script.importStrings).toOption
    script.save.toOption

/-- What an import makes of the files. -/
def imported? : Option (List UInt8) := do
  fs.edited? settings (← fs.script? settings.inputPath)

/-- What a listing makes of the files. -/
def listed? : Option (List UInt8) := do
  (← fs.script? settings.inputPath).listing.toOption.map Utf8.toBytes

end FileSystem

namespace Run

variable {σ : Type} [Host (StateM σ)] {α β : Type} {files : σ → FileSystem}

/-- A step that changes no file. What it gives is to be made of the files, and a reliable system
lets it fail only if there is nothing to be made. -/
structure Looks (files : σ → FileSystem) (step : Action (StateM σ) α)
    (made : FileSystem → Option α) : Prop where
  keeps : ∀ s outcome s', runOn step s = (outcome, s') → files s' = files s
  ok : ∀ s a s', runOn step s = (.ok a, s') → made (files s) = some a
  succeeds : Host.Reliable files → ∀ s a, made (files s) = some a →
    ∃ s', runOn step s = (.ok a, s')

/-- A step that changes no file if it fails. If it succeeds, it has put into one file what was to be
made of the files before. A reliable system lets it fail only if there is nothing to be made or the
file cannot be written. -/
structure AllOrNothing (files : σ → FileSystem) (step : Action (StateM σ) Unit)
    (path? : Option String) (made : FileSystem → Option (List UInt8)) : Prop where
  error : ∀ s e s', runOn step s = (.error e, s') → files s' = files s
  ok : ∀ s s', runOn step s = (.ok (), s') → ∃ path bytes, path? = some path ∧
    made (files s) = some bytes ∧ (files s).Replaced (files s') path bytes
  succeeds : Host.Reliable files → ∀ s path bytes fs, path? = some path →
    made (files s) = some bytes → (files s).write path bytes = .ok fs →
    ∃ s', runOn step s = (.ok (), s')

namespace Looks

variable {step : Action (StateM σ) α} {made : FileSystem → Option α}

theorem congr (h : Looks files step made) {k : FileSystem → Option α} (hk : ∀ fs, made fs = k fs) :
    Looks files step k := by
  rwa [← funext hk]

theorem pure (a : α) : Looks files (Pure.pure a : Action (StateM σ) α) fun _ ↦ some a where
  keeps s outcome s' h := by
    cases h
    rfl
  ok s a s' h := by
    cases h
    rfl
  succeeds _ s a h := by
    cases h
    exact ⟨s, rfl⟩

theorem throw (e : ScriptError) :
    Looks files (MonadExcept.throw e : Action (StateM σ) α) fun _ ↦ none where
  keeps s outcome s' h := by
    cases h
    rfl
  ok s a s' h := nomatch h
  succeeds _ s a h := nomatch h

theorem check (result : Except ScriptError α) :
    Looks files (Run.check result) fun _ ↦ result.toOption where
  keeps s outcome s' h := by
    cases h
    rfl
  ok s a s' h := toOption_eq_some_iff.2 (congrArg Prod.fst h)
  succeeds _ s a h := ⟨s, Prod.ext (toOption_eq_some_iff.1 h) rfl⟩

theorem bind (h : Looks files step made) {next : α → Action (StateM σ) β}
    {k : α → FileSystem → Option β} (hnext : ∀ a, Looks files (next a) (k a)) :
    Looks files (step >>= next) fun fs ↦ made fs >>= fun a ↦ k a fs where
  keeps s outcome s' hs := by
    obtain ⟨e, hstep, -⟩ | ⟨a, between, hstep, hs⟩ := runOn_bind_eq hs
    · exact h.keeps s _ s' hstep
    · exact ((hnext a).keeps between _ s' hs).trans (h.keeps s _ between hstep)
  ok s b s' hs := by
    obtain ⟨e, -, he⟩ | ⟨a, between, hstep, hs⟩ := runOn_bind_eq hs
    · cases he
    · have hb := (hnext a).ok between b s' hs
      rw [h.keeps s _ between hstep] at hb
      exact Option.bind_eq_some_iff.2 ⟨a, h.ok s a between hstep, hb⟩
  succeeds hreliable s b hb := by
    obtain ⟨a, ha, hb⟩ := Option.bind_eq_some_iff.1 hb
    obtain ⟨between, hstep⟩ := h.succeeds hreliable s a ha
    rw [runOn_bind_of_ok hstep]
    rw [← h.keeps s _ between hstep] at hb
    exact (hnext a).succeeds hreliable between b hb

theorem bindAllOrNothing (h : Looks files step made) {next : α → Action (StateM σ) Unit}
    {path? : Option String} {k : α → FileSystem → Option (List UInt8)}
    (hnext : ∀ a, AllOrNothing files (next a) path? (k a)) :
    AllOrNothing files (step >>= next) path? fun fs ↦ made fs >>= fun a ↦ k a fs where
  error s e s' hs := by
    obtain ⟨e, hstep, -⟩ | ⟨a, between, hstep, hs⟩ := runOn_bind_eq hs
    · exact h.keeps s _ s' hstep
    · exact ((hnext a).error between e s' hs).trans (h.keeps s _ between hstep)
  ok s s' hs := by
    obtain ⟨e, -, he⟩ | ⟨a, between, hstep, hs⟩ := runOn_bind_eq hs
    · cases he
    · obtain ⟨path, bytes, hpath, hmade, hreplaced⟩ := (hnext a).ok between s' hs
      rw [h.keeps s _ between hstep] at hmade hreplaced
      exact ⟨path, bytes, hpath,
        Option.bind_eq_some_iff.2 ⟨a, h.ok s a between hstep, hmade⟩, hreplaced⟩
  succeeds hreliable s path bytes fs hpath hbytes hwrite := by
    obtain ⟨a, ha, hbytes⟩ := Option.bind_eq_some_iff.1 hbytes
    obtain ⟨between, hstep⟩ := h.succeeds hreliable s a ha
    rw [runOn_bind_of_ok hstep]
    rw [← h.keeps s _ between hstep] at hbytes hwrite
    exact (hnext a).succeeds hreliable between path bytes fs hpath hbytes hwrite

theorem lift {step : StateM σ α} {found : FileSystem → α}
    (h : ∀ s a s', step.run s = (a, s') → files s' = files s ∧ a = found (files s)) :
    Looks files (liftM step : Action (StateM σ) α) fun fs ↦ some (found fs) where
  keeps s outcome s' hs := by
    cases hs
    exact (h s _ _ rfl).1
  ok s a s' hs := by
    cases hs
    exact congrArg some (h s _ _ rfl).2.symm
  succeeds _ s a ha := by
    cases ha
    exact ⟨(step.run s).2, Prod.ext (congrArg Except.ok (h s _ _ rfl).2) rfl⟩

end Looks

namespace AllOrNothing

variable {path? : Option String} {made : FileSystem → Option (List UInt8)}

theorem throw (e : ScriptError) (h : path? = none ∨ ∀ fs, made fs = none) :
    AllOrNothing files (MonadExcept.throw e : Action (StateM σ) Unit) path? made where
  error s e s' h := by
    cases h
    rfl
  ok s s' h := nomatch h
  succeeds _ s path bytes fs hpath hbytes _ := by
    obtain h | h := h
    · rw [h] at hpath
      cases hpath
    · rw [h] at hbytes
      cases hbytes

/-- A report at the end changes nothing and does not fail. -/
theorem thenLift {step : Action (StateM σ) Unit} (h : AllOrNothing files step path? made)
    {report : StateM σ Unit} (hreport : ∀ s, files (report.run s).2 = files s) :
    AllOrNothing files (step >>= fun _ ↦ liftM report) path? made where
  error s e s' hs := by
    obtain ⟨e, hstep, -⟩ | ⟨a, between, hstep, hs⟩ := runOn_bind_eq hs
    · exact h.error s e s' hstep
    · cases hs
  ok s s' hs := by
    obtain ⟨e, -, he⟩ | ⟨a, between, hstep, hs⟩ := runOn_bind_eq hs
    · cases he
    · cases hs
      have hsame : files (report between).2 = files between := hreport between
      rw [hsame]
      exact h.ok s between hstep
  succeeds hreliable s path bytes fs hpath hbytes hwrite := by
    obtain ⟨between, hstep⟩ := h.succeeds hreliable s path bytes fs hpath hbytes hwrite
    exact ⟨(report.run between).2, runOn_bind_of_ok hstep⟩

end AllOrNothing

/-- Records are taken without a change of any file. -/
def LogKeeps (files : σ → FileSystem) (log : List Record → StateM σ Unit) : Prop :=
  ∀ records s, files ((log records).run s).2 = files s

section Steps

variable {log : List Record → StateM σ Unit}

theorem looks_log (hlog : LogKeeps files log) (records : List Record) :
    Looks files (liftM (log records) : Action (StateM σ) Unit) fun _ ↦ some () :=
  .lift fun s a s' h ↦ by
    have hs := hlog records s
    rw [h] at hs
    exact ⟨hs, rfl⟩

theorem looks_importMessages (hlog : LogKeeps files log) (script : Script) (text? : Option String) :
    Looks files (importMessages log script text?)
      fun _ ↦ (text?.elim (.ok script) script.importMessages).toOption := by
  cases text? with
  | none => exact .pure script
  | some text => exact (looks_log hlog _).bind fun _ ↦ .check _

theorem looks_importStrings (hlog : LogKeeps files log) (script : Script) (text? : Option String) :
    Looks files (importStrings log script text?)
      fun _ ↦ (text?.elim (.ok script) script.importStrings).toOption := by
  cases text? with
  | none => exact .pure script
  | some text => exact (looks_log hlog _).bind fun _ ↦ .check _

theorem looks_read (hhost : Host.ShowsFiles files) (path : String) :
    Looks files (attempt (Host.read path) : Action (StateM σ) _) (·.contents path) where
  keeps s outcome s' h := by
    cases h
    exact (hhost.read path s _ _ rfl).1
  ok s bytes s' h := by
    have hread := (hhost.read path s _ _ rfl).2 bytes
    obtain ⟨hmap, -⟩ := Prod.mk.inj h
    exact toOption_eq_some_iff.2 (hread (mapError_eq_ok_iff.1 hmap))
  succeeds hreliable s bytes h := by
    have hread := hreliable.read path s bytes (toOption_eq_some_iff.1 h)
    exact ⟨((Host.read path : StateM σ _).run s).2, Prod.ext (mapError_eq_ok_iff.2 hread) rfl⟩

theorem looks_readText (hhost : Host.ShowsFiles files) (path : String) :
    Looks files (readText path : Action (StateM σ) String) (·.text? path) := by
  refine (looks_read hhost path).bind (k := fun bytes _ ↦ Utf8.decode? bytes) fun bytes ↦ ?_
  cases Utf8.decode? bytes with
  | none => exact .throw _
  | some text => exact .pure text

theorem looks_readOptional (hhost : Host.ShowsFiles files) (hlog : LogKeeps files log)
    (path : String) : Looks files (readOptional log path) (·.sheet? path) := by
  have hexists : Looks files (liftM (Host.pathExists path) : Action (StateM σ) _)
      fun fs ↦ some (fs.pathExists path) := .lift (hhost.pathExists path)
  refine hexists.bind (k := fun found fs ↦
    if found then some <$> fs.text? path else some none) fun found ↦ ?_
  cases found with
  | true =>
    refine ((looks_readText hhost path).bind fun text ↦ .pure (some text)).congr fun fs ↦ ?_
    cases fs.text? path <;> rfl
  | false => exact (looks_log hlog _).bind fun _ ↦ .pure none

theorem looks_loadScript (hhost : Host.ShowsFiles files) (hlog : LogKeeps files log)
    (path : String) : Looks files (loadScript log path) (·.script? path) := by
  have hfile : Looks files (liftM (Host.isFile path) : Action (StateM σ) _)
      fun fs ↦ some (fs.isFile path) := .lift (hhost.isFile path)
  refine (hfile.bind (k := fun found fs ↦ if found then fs.script? path else none)
    fun found ↦ ?_).congr fun fs ↦ ?_
  · cases found with
    | true =>
      exact (looks_read hhost path).bind fun bytes ↦ (looks_log hlog _).bind fun _ ↦ .check _
    | false => exact .throw _
  · change (if fs.isFile path then fs.script? path else none) = _
    cases hfile : fs.isFile path with
    | true => rfl
    | false =>
      rw [FileSystem.script?, FileSystem.contents_of_not_isFile hfile]
      rfl

theorem allOrNothing_write (hhost : Host.ShowsFiles files) (path : String) (bytes : List UInt8) :
    AllOrNothing files (attempt (Host.write path bytes)) (some path) fun _ ↦ some bytes where
  error s e s' h := by
    obtain ⟨hmap, rfl⟩ := Prod.mk.inj h
    obtain ⟨d, hd, -⟩ := mapError_eq_error_iff.1 hmap
    exact hhost.write_error path bytes s d _ (Prod.ext hd rfl)
  ok s s' h := by
    obtain ⟨hmap, rfl⟩ := Prod.mk.inj h
    have hwrite := hhost.write_ok path bytes s _ (Prod.ext (mapError_eq_ok_iff.1 hmap) rfl)
    exact ⟨path, bytes, rfl, rfl, FileSystem.replaced_of_write hwrite⟩
  succeeds hreliable s path' bytes' fs hpath hbytes hwrite := by
    cases hpath
    cases hbytes
    have hdone := hreliable.write path bytes s fs hwrite
    exact ⟨((Host.write path bytes : StateM σ _).run s).2,
      Prod.ext (mapError_eq_ok_iff.2 hdone) rfl⟩

/-- At the end of a run its result is written, and then reported. -/
theorem allOrNothing_finish (hhost : Host.ShowsFiles files) (hlog : LogKeeps files log)
    (result : Except ScriptError α) (bytesOf : α → List UInt8) (path : String)
    (records : List Record) :
    AllOrNothing files (check result >>= fun a ↦
      attempt (Host.write path (bytesOf a)) >>= fun _ ↦ liftM (log records)) (some path)
      fun _ ↦ result.toOption.map bytesOf := by
  cases result with
  | error e => exact .throw e (.inr fun _ ↦ rfl)
  | ok a => exact (allOrNothing_write hhost path (bytesOf a)).thenLift (hlog records)

theorem allOrNothing_importTexts (hhost : Host.ShowsFiles files) (hlog : LogKeeps files log)
    (settings : Settings) (script : Script) :
    AllOrNothing files (importTexts log settings script) settings.outputPath?
      (·.edited? settings script) := by
  rw [importTexts]
  cases settings.outputPath? with
  | none => exact .throw _ (.inl rfl)
  | some path =>
    refine (looks_readOptional hhost hlog _).bindAllOrNothing fun messages? ↦
      (looks_readOptional hhost hlog _).bindAllOrNothing fun strings? ↦ ?_
    dsimp only
    split
    · exact .throw _ (.inr fun _ ↦ rfl)
    · refine (looks_importMessages hlog script messages?).bindAllOrNothing fun script ↦
        (looks_importStrings hlog script strings?).bindAllOrNothing fun script ↦
          (looks_log hlog _).bindAllOrNothing (k := fun _ _ ↦ script.save.toOption) fun _ ↦ ?_
      have hfinish := allOrNothing_finish hhost hlog script.save (fun bytes ↦ bytes) path
        [⟨.info, .run, "wrote " ++ path⟩]
      rwa [Option.map_id'] at hfinish

theorem allOrNothing_disassemble (hhost : Host.ShowsFiles files) (hlog : LogKeeps files log)
    (settings : Settings) (script : Script) :
    AllOrNothing files (disassemble log settings script) (some settings.listingPath)
      fun _ ↦ script.listing.toOption.map Utf8.toBytes :=
  (looks_log hlog _).bindAllOrNothing fun _ ↦
    allOrNothing_finish hhost hlog script.listing Utf8.toBytes _ _

end Steps

end Run

variable {σ : Type} [Host (StateM σ)] {files : σ → FileSystem} {log : List Record → StateM σ Unit}

/-- A run that imports texts or lists a script either fails and leaves all files as they are, or
replaces the one file that it is to make. Even where that is one of the files that the run reads,
what it holds in the end is made of the files as they were before. A reliable system lets the run
fail only if there is nothing to be made or the file cannot be written. -/
theorem run_allOrNothing (hhost : Host.ShowsFiles files) (hlog : Run.LogKeeps files log)
    (settings : Settings) :
    (settings.mode = .importTexts →
      Run.AllOrNothing files (run log settings) settings.outputPath? (·.imported? settings)) ∧
    (settings.mode = .disassemble →
      Run.AllOrNothing files (run log settings) (some settings.listingPath)
        (·.listed? settings)) := by
  refine ⟨fun hmode ↦ ?_, fun hmode ↦ ?_⟩
  · refine (Run.looks_loadScript hhost hlog _).bindAllOrNothing fun script ↦ ?_
    rw [hmode]
    exact Run.allOrNothing_importTexts hhost hlog settings script
  · refine (Run.looks_loadScript hhost hlog _).bindAllOrNothing fun script ↦ ?_
    rw [hmode]
    exact Run.allOrNothing_disassemble hhost hlog settings script

namespace Session

theorem logKeeps (debug : Bool) :
    Run.LogKeeps Desk.files (CommandLine.log debug none : List Record → Session Unit) := by
  intro records desk
  have hreport : ∀ (shown : List Record) (desk : Desk),
      ((shown.forM fun r ↦ Host.report (.record r) : Session Unit).run desk).2.files =
        desk.files := by
    intro shown
    induction shown with
    | nil => exact fun _ ↦ rfl
    | cons r later ih => exact fun desk ↦ ih { desk with reports := .record r :: desk.reports }
  exact hreport _ desk

def spoken : Container := { messages := #[⟨0, 4⟩], messageData := #[0x61, 0, 0, 0] }

/-- A script with one message, and a sheet with another text for it. -/
def deskSample : Desk where
  files := ⟨[(["exec.dat"], .file (spoken.toBytes.toOption.getD [])),
    (["exec.msg.txt"], .file (Utf8.toBytes "◆0◆b\n"))]⟩

/-- The output has the place of the input, or none. -/
def importInto (outputPath? : Option String) : Settings :=
  { mode := .importTexts, inputPath := "exec.dat", outputPath? }

def logged (settings : Settings) : Run.Action Session Unit :=
  run (CommandLine.log false none) settings

theorem run_allOrNothing_ontoInput :
    ∃ bytes desk desk' e,
      runOn (logged (importInto (some "./exec.dat"))) deskSample = (.ok (), desk) ∧
      deskSample.files.imported? (importInto (some "./exec.dat")) = some bytes ∧
      (Container.parse bytes).toOption.bind (·.messageText? 0) = some "b" ∧
      desk.files.contents "exec.dat" = some bytes ∧
      desk.files.contents "exec.msg.txt" = some (Utf8.toBytes "◆0◆b\n") ∧
      runOn (logged (importInto none)) deskSample = (.error e, desk') ∧
      desk'.files = deskSample.files := by
  obtain ⟨honto, -⟩ := run_allOrNothing showsFiles (logKeeps false) (importInto (some "./exec.dat"))
  obtain ⟨hnone, -⟩ := run_allOrNothing showsFiles (logKeeps false) (importInto none)
  have hread : (deskSample.files.imported? (importInto (some "./exec.dat"))).bind
      (fun bytes ↦ (Container.parse bytes).toOption.bind (·.messageText? 0)) = some "b" := by
    decide +kernel
  obtain ⟨bytes, hmade, hread⟩ := Option.bind_eq_some_iff.1 hread
  have hopen : (deskSample.files.openPlace "./exec.dat").toOption.isSome := by decide
  obtain ⟨found, hfound⟩ := Option.isSome_iff_exists.1 hopen
  have hwrite : deskSample.files.write "./exec.dat" bytes =
      .ok (deskSample.files.set found.1 (.file bytes)) :=
    bind_eq_ok_iff.2 ⟨found, toOption_eq_some_iff.1 hfound, rfl⟩
  obtain ⟨desk, hok⟩ := (honto rfl).succeeds reliable deskSample _ bytes _ rfl hmade hwrite
  obtain ⟨path, written, hpath, hwritten, hreplaced⟩ := (honto rfl).ok deskSample desk hok
  obtain rfl := Option.some.inj hpath
  obtain rfl := Option.some.inj (hmade.symm.trans hwritten)
  have hfailed : (runOn (logged (importInto none)) deskSample).1.toOption = none := by
    decide +kernel
  obtain ⟨e, desk', herror⟩ := exists_runOn_error hfailed
  have hfiles := (hnone rfl).error deskSample e desk' herror
  have hinput : deskSample.files.place "exec.dat" = .ok ["exec.dat"] :=
    toOption_eq_some_iff.1 (by decide)
  have houtput : deskSample.files.place "./exec.dat" = .ok ["exec.dat"] :=
    toOption_eq_some_iff.1 (by decide)
  have hsheet : deskSample.files.place "exec.msg.txt" = .ok ["exec.msg.txt"] :=
    toOption_eq_some_iff.1 (by decide)
  have hne : deskSample.files.place "exec.msg.txt" ≠ deskSample.files.place "./exec.dat" := by
    rw [hsheet, houtput]
    exact fun h ↦ absurd (Except.ok.inj h) (by decide)
  exact ⟨bytes, desk, desk', e, hok, hmade, hread, hreplaced.same _ (hinput.trans houtput.symm),
    (hreplaced.other _ hne).trans (by decide +kernel), herror, hfiles⟩

end Session

end NovelScript
