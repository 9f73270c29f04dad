/-
  The structured session protocol.

  * `Idle` is the console between two commands; `runCommand_spec` says that a
    command adds one complete entry under its own line, or is refused with a
    notice, and `own_commandFrame` that its frame tells just that;
  * `Serving k` is the invariant of the loop after `k` commands;
  * `Protocol` is what a session does as a whole; one lemma for each way it can
    end, and `Serving.protocol` for the loop;
  * `session_protocol` starts it from a successful hop.
-/
import DekoponConsole.Proof.Flight
import DekoponConsole.Proof.Input
import DekoponConsole.Proof.Pass
import DekoponConsole.Proof.Startup

namespace DekoponConsole

open App

variable {exts : Externals}

/-! ## One command -/

/-- The console between two commands of a session. -/
structure Idle (c : Console) : Prop where
  running : c.running = none
  busy : c.app.busy = false
  session : c.app.session.isSome
  assets : c.app.assets.isSome
  settled : c.app.Settled

/-- The command added one entry, complete and under its own line. -/
def Added (line : String) (app app' : App) : Prop :=
  ∃ entry, app'.shellHistory = app.shellHistory ++ [entry] ∧ entry.exitCode.isSome ∧
    (entry.input = line ∨ entry.input = assetLabel)

/-- The command added no entry, and was refused with a notice. -/
def Refused (app app' : App) : Prop :=
  ∃ text, app'.shellHistory = app.shellHistory ∧ app'.notice = some (.refusal text)

theorem runCommand_of_idle {o : CommandOracle} {line : String} {c c' : Console}
    {calls : List BrokerCall}
    (h : dispatchShell exts o.answers { c with app := { c.app with notice := none } } line =
      (c', calls)) (hr : c'.running = none) : runCommand exts o line c = c' := by
  simp [runCommand, dispatch, h, hr]

theorem runCommand_of_running {o : CommandOracle} {line : String} {c c' : Console}
    {calls : List BrokerCall} {turn : RunningTurn}
    (h : dispatchShell exts o.answers { c with app := { c.app with notice := none } } line =
      (c', calls)) (hr : c'.running = some turn) (hs : turn.shell = true) :
    runCommand exts o line c = settleTurn exts true (complete exts o line turn c').2
      { (complete exts o line turn c').1 with running := none } := by
  simp [runCommand, dispatch, h, hr, hs]

theorem Idle.of_added {line : String} {c c' : Console} (h : Idle c) (hr : c'.running = none)
    (hb : c'.app.busy = false) (hc : SameContext c.app c'.app) (ha : Added line c.app c'.app) :
    Idle c' := by
  refine ⟨hr, hb, hc.session ▸ h.session, hc.assets ▸ h.assets, ?_⟩
  obtain ⟨entry, hh, he, -⟩ := ha
  rw [Settled, hh]
  exact List.forall_mem_append.2 ⟨h.settled, by simpa using he⟩

/-- What a local command leaves. -/
theorem completeLocally_spec {c d : Console} {line input : String} (h : Idle c)
    (hr : d.running = none) (hc : SameContext c.app d.app)
    (hh : d.app.shellHistory = c.app.shellHistory) (output : String) (exitCode : ℕ)
    (hi : input = line ∨ input = assetLabel) :
    Idle (completeLocally d input output exitCode) ∧
      Added line c.app (completeLocally d input output exitCode).app := by
  rw [completeLocally_eq]
  have hadded : Added line c.app { d.app with
      shellTop := none
      busy := false
      notice := none
      shellHistory := d.app.shellHistory ++ [⟨input, output, some exitCode, false⟩] } :=
    ⟨_, by rw [hh], rfl, hi⟩
  exact ⟨h.of_added hr rfl (hc.trans (by constructor <;> rfl)) hadded, hadded⟩

section
variable (exts : Externals) {o : CommandOracle} (line : String) (turn : RunningTurn) (c : Console)

/-- A script that reports nothing leaves the application alone. -/
theorem app_complete_silent (h : o.script = none) :
    (complete exts o line turn c).1.app = c.app := by
  obtain ⟨stores, hstores⟩ := provide_eq exts c o.intakes
  simp [complete, h, hstores]

/-- A script that reports completes its entry. -/
theorem app_complete_reported {outcome : ScriptOutcome} (h : o.script = some outcome) :
    (complete exts o line turn c).1.app = c.app.finishShell (shellReport line outcome) := by
  obtain ⟨stores, hstores⟩ := provide_eq exts c o.intakes
  simp [complete, h, hstores]

end

/-- What joining a script leaves, once its events are drained. -/
theorem joined_spec (exts : Externals) (o : CommandOracle) (line : String) {c c' d : Console}
    (joined : Joined) (h : Idle c) (hc : SameContext c.app c'.app)
    (hh : c'.app.shellHistory = c.app.shellHistory ++ [⟨line, "", none, false⟩])
    (hsilent : o.script = none → d.app = c'.app)
    (hreported : ∀ outcome, o.script = some outcome →
      d.app = c'.app.finishShell (shellReport line outcome)) :
    SameContext c.app (settleTurn exts true joined d).app ∧
      Added line c.app (settleTurn exts true joined d).app := by
  have hp : c'.app.Pending c.app.shellHistory ⟨line, "", none, false⟩ := ⟨hh, rfl⟩
  have hd : SameContext d.app (settleTurn exts true joined d).app :=
    (sameContext_settleTurn exts true joined d).app
  cases hs : o.script with
  | none =>
    have happ := hsilent hs
    refine ⟨hc.trans (happ ▸ hd), ?_⟩
    obtain ⟨done, hdone, hinput, hsettled⟩ :=
      App.Pending.settleTurn exts (c := d) joined (happ ▸ hp)
    exact ⟨done, hsettled, hdone, Or.inl hinput⟩
  | some outcome =>
    have happ := hreported outcome hs
    rw [hp.finishShell] at happ
    have hsettled : d.app.Settled := by
      rw [happ]
      exact List.forall_mem_append.2 ⟨h.settled, by simp [shellReport]⟩
    have hreport := App.Settled.settleTurn exts (c := d) joined hsettled
    refine ⟨hc.trans (SameContext.trans ?_ hd), shellReport line outcome, ?_, rfl, Or.inl rfl⟩
    · rw [happ]
      constructor <;> rfl
    · exact hreport.trans (by rw [happ])

/-- What draining and joining a script leaves. -/
theorem complete_spec (exts : Externals) (o : CommandOracle) (line : String) {c c' : Console}
    {turn : RunningTurn} (h : Idle c) (hc : SameContext c.app c'.app)
    (hh : c'.app.shellHistory = c.app.shellHistory ++ [⟨line, "", none, false⟩]) :
    let d := settleTurn exts true (complete exts o line turn c').2
      { (complete exts o line turn c').1 with running := none }
    SameContext c.app d.app ∧ Added line c.app d.app :=
  joined_spec exts o line _ h hc hh (app_complete_silent exts line turn c') fun _ =>
    app_complete_reported exts line turn c'

/-- **A command adds its own entry, or is refused**, and leaves the console idle. -/
theorem runCommand_spec (o : CommandOracle) (line : String) {c : Console} (h : Idle c) :
    Idle (runCommand exts o line c) ∧ (Added line c.app (runCommand exts o line c).app ∨
      Refused c.app (runCommand exts o line c).app) := by
  have he := dispatchShell_effect exts o.answers
    { c with app := { c.app with notice := none } } line
  have hnotice : SameContext c.app { c.app with notice := none } := by constructor <;> rfl
  generalize hd : dispatchShell exts o.answers
    { c with app := { c.app with notice := none } } line = d at he
  obtain ⟨c', calls⟩ := d
  cases he with
  | refused text =>
    rw [runCommand_of_idle hd h.running]
    exact ⟨⟨h.running, h.busy, h.session, h.assets, h.settled⟩, Or.inr ⟨text, rfl, rfl⟩⟩
  | missing hm => exact absurd hm.2 (Option.isSome_iff_ne_none.1 h.assets)
  | completed hb identity stores hl input output exitCode hi _ hc =>
    rw [runCommand_of_idle hd h.running]
    obtain ⟨hidle, hadded⟩ := completeLocally_spec (d := { c with
      app := { c.app with notice := none }, identity := identity, stores := stores }) h h.running
      hnotice rfl output exitCode hi
    exact ⟨hidle, Or.inl hadded⟩
  | failed hb report _ hl =>
    rw [runCommand_of_idle hd h.running]
    have hp := pending_startShell { c.app with notice := none } line
    have hadded : Added line c.app { (({ c.app with notice := none } : App).startShell
        line).failShell exts report with busy := false } :=
      ⟨failedEntry exts _ report _, hp.shellHistory_failShell report, rfl, Or.inl rfl⟩
    have hc := hnotice.trans ((sameContext_startShell _ line).trans (sameContext_failShell exts _ report))
    exact ⟨h.of_added h.running rfl (hc.trans (sameContext_busy _ false)) hadded, Or.inl hadded⟩
  | spawned hb leg hs _ hl _ hspawned =>
    have hc := hnotice.trans ((sameContext_startShell _ line).trans hspawned.sameContext.app)
    obtain ⟨hr, hh⟩ : c'.running = some ⟨.shell line leg c.nextCancel c.history, true, false⟩ ∧
        c'.app.shellHistory = c.app.shellHistory ++ [⟨line, "", none, false⟩] := by
      obtain ⟨trace, rfl⟩ := hspawned
      exact ⟨rfl, rfl⟩
    rw [runCommand_of_running hd hr rfl]
    obtain ⟨hsettled, hadded⟩ := complete_spec exts o line h hc hh
    refine ⟨h.of_added ?_ ?_ hsettled hadded, Or.inl hadded⟩
    · rw [settleTurn_eq]
    · rw [settleTurn_eq]
      rfl

/-! ## One frame -/

/-- A frame tells of one command, from the application before and after it: it is
    `ok` exactly if the command added an entry with exit code 0, and its text is
    the output of the entry the command added, or the command's refusal. -/
structure Own (line : String) (app app' : App) (frame : Frame) : Prop where
  known : frame.status = "ok" ∨ frame.status = "error"
  status : frame.status = "ok" ↔
    ∃ entry, app'.shellHistory = app.shellHistory ++ [entry] ∧ entry.exitCode = some 0
  text : (∃ entry, app'.shellHistory = app.shellHistory ++ [entry] ∧ entry.exitCode.isSome ∧
      (entry.input = line ∨ entry.input = assetLabel) ∧ frame.text = entry.output) ∨
    (app'.shellHistory = app.shellHistory ∧ app'.notice = some (.refusal frame.text))

theorem own_commandFrame {line : String} {app app' : App}
    (h : Added line app app' ∨ Refused app app') :
    Own line app app' (commandFrame app.shellHistory.length app') := by
  rcases h with ⟨entry, hh, he, hi⟩ | ⟨text, hh, hn⟩
  · have hentry : app'.shellHistory[app.shellHistory.length]? = some entry := by simp [hh]
    have hunique (entry' : ShellEntry) (h : app'.shellHistory = app.shellHistory ++ [entry']) :
        entry' = entry := by simpa [hh] using h.symm
    have hstatus : (commandFrame app.shellHistory.length app').status = "ok" ↔
        entry.exitCode = some 0 := by
      simp only [commandFrame, hentry, Option.bind_some]
      split <;> simp_all
    refine ⟨?_, ?_, Or.inl ⟨entry, hh, he, hi, by simp [commandFrame, hentry]⟩⟩
    · simp only [commandFrame]
      split
      · exact Or.inl rfl
      · exact Or.inr rfl
    · rw [hstatus]
      constructor
      · exact fun h => ⟨entry, hh, h⟩
      · rintro ⟨entry', hh', h⟩
        rwa [← hunique entry' hh']
  · have hentry : app'.shellHistory[app.shellHistory.length]? = none := by simp [hh]
    refine ⟨Or.inr (by simp [commandFrame, hentry]), ?_, Or.inr ⟨hh, ?_⟩⟩
    · refine iff_of_false (by simp [commandFrame, hentry]) ?_
      rintro ⟨entry, hh', -⟩
      simp [hh] at hh'
    · simp [commandFrame, hentry, hn, Notice.refusal]

/-- What one frame is written as. -/
def Frame.bytes (nonce : String) (frame : Frame) : List Char :=
  writeResult nonce frame.status frame.text

/-- A frame is written and recorded, or a prefix of it is written. -/
theorem writeFrame_cases (orc : SessionOracle) (nonce : String) (s : Session) (frame : Frame) :
    (orc.write s.writes = none ∧ s.writeFrame orc nonce frame =
      ({ s with out := s.out ++ frame.bytes nonce, writes := s.writes + 1,
                frames := s.frames ++ [frame] }, .ok ())) ∨
    ∃ n, orc.write s.writes = some n ∧ s.writeFrame orc nonce frame =
      ({ s with out := s.out ++ (frame.bytes nonce).take n, writes := s.writes + 1 },
        .error (.terminal "write")) := by
  cases h : orc.write s.writes with
  | none => exact Or.inl ⟨rfl, by simp [Session.writeFrame, Session.write, h, Frame.bytes]⟩
  | some n => exact Or.inr ⟨n, rfl, by simp [Session.writeFrame, Session.write, h, Frame.bytes]⟩

/-! ## A whole session -/

section
variable (exts) (orc : SessionOracle) (nonce : String) (c₀ : Console) (lines : List String)
  (ending : Except String Unit)

/-- The console after `k` commands. -/
def consoleAt : ℕ → Console
  | 0 => c₀
  | k + 1 => runCommand exts (orc.command k) (lines.getD k "") (consoleAt k)

/-- The frame of command `k`. -/
def frameAt (k : ℕ) : Frame :=
  commandFrame (consoleAt exts orc c₀ lines k).app.shellHistory.length
    (consoleAt exts orc c₀ lines (k + 1)).app

/-- What a session writes before its first frame. -/
def opening : List Char := writeln [readyLine nonce]

/-- The input ended, after at most as many commands as are accepted, and no
    deadline passed and no read or write failed. -/
structure Clean : Prop where
  ended : ending = .ok ()
  few : lines.length ≤ maxCommands
  read : ∀ i ≤ lines.length, (orc.command i).readDeadline = false
  ran : ∀ i < lines.length, (orc.command i).timeout = false
  written : ∀ i ≤ lines.length, orc.write i = none

/-- **What a session does**, when `lines` are submitted to it. -/
structure Protocol (r : Session × Except ConsoleExit Unit) : Prop where
  /-- the ready line and the frames, and part of one frame if its write failed -/
  output : (∃ cut, r.1.out = opening nonce ++ r.1.frames.flatMap (Frame.bytes nonce) ++ cut ∧
      (orc.write (r.1.frames.length + 1) = none → cut = [])) ∨
    (orc.write 0 ≠ none ∧ r.1.dispatched = [] ∧ r.1.frames = [] ∧ r.1.out <+: opening nonce)
  /-- commands run in the order they are submitted -/
  submitted : r.1.dispatched <+: lines
  bounded : r.1.dispatched.length ≤ maxCommands
  /-- one frame for each, unless its write failed; one more refuses a command
      past the last -/
  framed : r.1.frames.length = r.1.dispatched.length ∨
    (r.1.frames.length + 1 = r.1.dispatched.length ∧ orc.write r.1.dispatched.length ≠ none) ∨
    (r.1.dispatched.length = maxCommands ∧ maxCommands < lines.length ∧
      r.1.frames.length = maxCommands + 1 ∧ r.1.frames[maxCommands]? = some limitFrame)
  /-- each frame is its own command's -/
  own : ∀ i frame, i < r.1.dispatched.length → r.1.frames[i]? = some frame →
    if (orc.command i).timeout then frame = timeoutFrame
    else Own (lines.getD i "") (consoleAt exts orc c₀ lines i).app
      (consoleAt exts orc c₀ lines (i + 1)).app frame
  /-- nothing follows a command that timed out -/
  last : ∀ i < r.1.dispatched.length, (orc.command i).timeout = true →
    r.1.dispatched.length = i + 1 ∧ r.1.frames.length ≤ i + 1
  /-- a command past the last is refused with a frame -/
  limit : r.1.dispatched.length = maxCommands → maxCommands < lines.length →
    (∀ i < maxCommands, (orc.command i).timeout = false) →
    (orc.command maxCommands).readDeadline = false → (∀ i ≤ maxCommands + 1, orc.write i = none) →
    r.1.frames.length = maxCommands + 1
  /-- the result is `Ok` exactly for a clean session -/
  ok : r.2 = .ok () ↔ Clean orc lines ending
  complete : r.2 = .ok () → r.1.dispatched = lines ∧ r.1.frames.length = lines.length

/-- The loop after `k` commands. -/
structure Serving (s : Session) (k : ℕ) : Prop where
  count : k ≤ lines.length
  bounded : k ≤ maxCommands
  console : s.console = consoleAt exts orc c₀ lines k
  input : submitted s.input = (lines.drop k, ending)
  dispatched : s.dispatched = lines.take k
  frames : s.frames = (List.range k).map (frameAt exts orc c₀ lines)
  out : s.out = opening nonce ++ s.frames.flatMap (Frame.bytes nonce)
  writes : s.writes = k + 1
  written : ∀ i ≤ k, orc.write i = none
  read : ∀ i < k, (orc.command i).readDeadline = false
  ran : ∀ i < k, (orc.command i).timeout = false

end

section
variable {orc : SessionOracle} {nonce : String} {c₀ : Console} {lines : List String}
  {ending : Except String Unit} {s s' : Session} {k : ℕ}

theorem idle_consoleAt (hidle : Idle c₀) (k : ℕ) : Idle (consoleAt exts orc c₀ lines k) := by
  induction k with
  | zero => exact hidle
  | succ k ih => exact (runCommand_spec _ _ ih).1

theorem own_frameAt (hidle : Idle c₀) (k : ℕ) :
    Own (lines.getD k "") (consoleAt exts orc c₀ lines k).app
      (consoleAt exts orc c₀ lines (k + 1)).app (frameAt exts orc c₀ lines k) :=
  own_commandFrame (runCommand_spec _ _ (idle_consoleAt hidle k)).2

namespace Serving

theorem length_dispatched (h : Serving exts orc nonce c₀ lines ending s k) :
    s.dispatched.length = k := by
  rw [h.dispatched, List.length_take, Nat.min_eq_left h.count]

theorem length_frames (h : Serving exts orc nonce c₀ lines ending s k) : s.frames.length = k := by
  rw [h.frames, List.length_map, List.length_range]

/-- A frame of a command that did not time out. -/
theorem own (h : Serving exts orc nonce c₀ lines ending s k) (hidle : Idle c₀) {i : ℕ} (hi : i < k)
    {frame : Frame} (hf : s.frames[i]? = some frame) :
    if (orc.command i).timeout then frame = timeoutFrame
    else Own (lines.getD i "") (consoleAt exts orc c₀ lines i).app
      (consoleAt exts orc c₀ lines (i + 1)).app frame := by
  have hframe : frameAt exts orc c₀ lines i = frame := by simpa [h.frames, hi] using hf
  rw [h.ran i hi, ← hframe]
  exact own_frameAt hidle i

/-- The session stops at a read: its deadline passed, or the input ended. -/
theorem stopped (h : Serving exts orc nonce c₀ lines ending s k) (hidle : Idle c₀)
    (hd : s'.dispatched = s.dispatched) (hf : s'.frames = s.frames) (ho : s'.out = s.out)
    {result : Except ConsoleExit Unit}
    (hr : ((orc.command k).readDeadline = true ∧ result ≠ .ok ()) ∨
      ((orc.command k).readDeadline = false ∧ k = lines.length ∧
        (result = .ok () ↔ ending = .ok ()))) :
    Protocol exts orc nonce c₀ lines ending (s', result) where
  output := Or.inl ⟨[], by rw [ho, hf, h.out, List.append_nil], fun _ => rfl⟩
  submitted := by
    rw [hd, h.dispatched]
    exact List.take_prefix k lines
  bounded := by
    rw [hd, h.length_dispatched]
    exact h.bounded
  framed := Or.inl (by rw [hf, hd, h.length_frames, h.length_dispatched])
  own i frame hi hframe := h.own hidle (by rwa [hd, h.length_dispatched] at hi) (hf ▸ hframe)
  last i hi htimeout := by
    rw [hd, h.length_dispatched] at hi
    rw [h.ran i hi] at htimeout
    cases htimeout
  limit hmax hmore _ hread _ := by
    rw [hd, h.length_dispatched] at hmax
    rcases hr with ⟨hdeadline, -⟩ | ⟨-, hk, -⟩
    · rw [hmax, hread] at hdeadline
      cases hdeadline
    · omega
  ok := by
    rcases hr with ⟨hdeadline, hne⟩ | ⟨hread, hk, hiff⟩
    · refine iff_of_false hne ?_
      intro hc
      rw [hc.read k h.count] at hdeadline
      cases hdeadline
    · rw [hiff]
      refine ⟨fun he => ⟨he, hk ▸ h.bounded, ?_, ?_, ?_⟩,
        fun hc => hc.ended⟩
      · intro i hi
        rcases Nat.lt_or_eq_of_le (hk ▸ hi) with hlt | rfl
        · exact h.read i hlt
        · exact hread
      · intro i hi
        exact h.ran i (hk ▸ hi)
      · intro i hi
        exact h.written i (hk ▸ hi)
  complete hok := by
    rcases hr with ⟨-, hne⟩ | ⟨-, hk, -⟩
    · exact absurd hok hne
    · refine ⟨?_, by rw [hf, h.length_frames, hk]⟩
      rw [hd, h.dispatched, hk, List.take_length]

theorem length_take_succ (hk : k < lines.length) : (lines.take (k + 1)).length = k + 1 := by
  rw [List.length_take, Nat.min_eq_left hk]

/-- Of the commands so far only the one being served can have timed out. -/
theorem eq_of_timeout (h : Serving exts orc nonce c₀ lines ending s k) {i : ℕ} (hi : i < k + 1)
    (ht : (orc.command i).timeout = true) : i = k := by
  rcases Nat.lt_succ_iff_lt_or_eq.1 hi with hlt | heq
  · rw [h.ran i hlt] at ht
    cases ht
  · exact heq

/-- The command after `k` others timed out, and its frame was written. -/
theorem timedOut (h : Serving exts orc nonce c₀ lines ending s k) (hidle : Idle c₀)
    (hk : k < lines.length) (hmax : k < maxCommands) (ht : (orc.command k).timeout = true)
    (hd : s'.dispatched = lines.take (k + 1)) (hf : s'.frames = s.frames ++ [timeoutFrame])
    (ho : s'.out = s.out ++ timeoutFrame.bytes nonce) (error : ConsoleExit) :
    Protocol exts orc nonce c₀ lines ending (s', .error error) := by
  have hdl : s'.dispatched.length = k + 1 := by rw [hd, length_take_succ hk]
  have hfl : s'.frames.length = k + 1 := by simp [hf, h.length_frames]
  refine ⟨Or.inl ⟨[], ?_, fun _ => rfl⟩, ?_, ?_, Or.inl (by rw [hfl, hdl]), ?_, ?_, ?_,
    iff_of_false (by simp) ?_, ?_⟩
  · simp [ho, hf, h.out]
  · exact hd ▸ List.take_prefix _ lines
  · exact hdl ▸ hmax
  · intro i frame hi hframe
    simp only [hdl] at hi
    rcases Nat.lt_succ_iff_lt_or_eq.1 hi with hlt | rfl
    · rw [hf, List.getElem?_append_left (by rw [h.length_frames]; exact hlt)] at hframe
      exact h.own hidle hlt hframe
    · rw [hf, List.getElem?_append_right (by rw [h.length_frames]), h.length_frames] at hframe
      rw [if_pos ht]
      simpa using hframe.symm
  · intro i hi hi'
    simp only [hdl] at hi ⊢
    obtain rfl := h.eq_of_timeout hi hi'
    exact ⟨rfl, hfl.le⟩
  · intro _ _ hran _ _
    rw [hran k hmax] at ht
    cases ht
  · intro hc
    rw [hc.ran k hk] at ht
    cases ht
  · intro hok
    cases hok

/-- The frame of the command after `k` others could not be written. -/
theorem unwritten (h : Serving exts orc nonce c₀ lines ending s k) (hidle : Idle c₀)
    (hk : k < lines.length) (hmax : k < maxCommands) (hw : orc.write (k + 1) ≠ none)
    (hd : s'.dispatched = lines.take (k + 1)) (hf : s'.frames = s.frames) (cut : List Char)
    (ho : s'.out = s.out ++ cut) (error : ConsoleExit) :
    Protocol exts orc nonce c₀ lines ending (s', .error error) := by
  have hdl : s'.dispatched.length = k + 1 := by rw [hd, length_take_succ hk]
  have hfl : s'.frames.length = k := by rw [hf, h.length_frames]
  refine ⟨Or.inl ⟨cut, by rw [ho, hf, h.out], ?_⟩, ?_, ?_,
    Or.inr (Or.inl ⟨by rw [hfl, hdl], hdl ▸ hw⟩), ?_, ?_, ?_,
    iff_of_false (by simp) ?_, ?_⟩
  · intro hnone
    exact absurd (hfl ▸ hnone) hw
  · exact hd ▸ List.take_prefix _ lines
  · exact hdl ▸ hmax
  · intro i frame hi hframe
    refine h.own hidle ?_ (hf ▸ hframe)
    exact hfl ▸ (List.getElem?_eq_some_iff.1 hframe).1
  · intro i hi hi'
    simp only [hdl] at hi ⊢
    obtain rfl := h.eq_of_timeout hi hi'
    exact ⟨rfl, hfl ▸ Nat.le_succ i⟩
  · intro _ _ _ _ hwritten
    exact absurd (hwritten (k + 1) (by omega)) hw
  · intro hc
    exact absurd (hc.written (k + 1) hk) hw
  · intro hok
    cases hok

/-- A command past the last was refused, with a frame unless its write failed. -/
theorem refused (h : Serving exts orc nonce c₀ lines ending s k) (hidle : Idle c₀)
    (hk : k < lines.length) (hmax : k = maxCommands) (hd : s'.dispatched = s.dispatched)
    (hw : (orc.write (k + 1) = none ∧ s'.frames = s.frames ++ [limitFrame] ∧
        s'.out = s.out ++ limitFrame.bytes nonce) ∨
      (orc.write (k + 1) ≠ none ∧ s'.frames = s.frames ∧ ∃ cut, s'.out = s.out ++ cut))
    (error : ConsoleExit) : Protocol exts orc nonce c₀ lines ending (s', .error error) := by
  have hdl : s'.dispatched.length = k := by rw [hd, h.length_dispatched]
  have hlast (i : ℕ) (hi : i < s'.dispatched.length) (ht : (orc.command i).timeout = true) : False := by
    rw [h.ran i (hdl ▸ hi)] at ht
    cases ht
  have hclean : ¬Clean orc lines ending := fun hc => by
    have := hc.few
    omega
  have hprefix : s'.dispatched <+: lines := by
    rw [hd, h.dispatched]
    exact List.take_prefix k lines
  rcases hw with ⟨hw, hf, ho⟩ | ⟨hw, hf, cut, ho⟩
  · have hfl : s'.frames.length = k + 1 := by simp [hf, h.length_frames]
    refine ⟨Or.inl ⟨[], by simp [ho, hf, h.out], fun _ => rfl⟩, hprefix, (hdl.trans hmax).le,
      Or.inr (Or.inr ⟨hdl.trans hmax, hmax ▸ hk, hmax ▸ hfl, ?_⟩), ?_,
      fun i hi ht => (hlast i hi ht).elim, fun _ _ _ _ _ => hmax ▸ hfl, iff_of_false (by simp) hclean,
      fun hok => by cases hok⟩
    · rw [hf, List.getElem?_append_right (by rw [h.length_frames, hmax]), h.length_frames, hmax]
      simp
    · intro i frame hi hframe
      have hi' : i < k := hdl ▸ hi
      rw [hf, List.getElem?_append_left (by rw [h.length_frames]; exact hi')] at hframe
      exact h.own hidle hi' hframe
  · have hfl : s'.frames.length = k := by rw [hf, h.length_frames]
    refine ⟨Or.inl ⟨cut, by rw [ho, hf, h.out], fun hnone => absurd (hfl ▸ hnone) hw⟩, hprefix,
      (hdl.trans hmax).le, Or.inl (by rw [hfl, hdl]), ?_,
      fun i hi ht => (hlast i hi ht).elim, ?_, iff_of_false (by simp) hclean,
      fun hok => by cases hok⟩
    · intro i frame hi hframe
      exact h.own hidle (hdl ▸ hi) (hf ▸ hframe)
    · intro _ _ _ _ hwritten
      exact absurd (hwritten (k + 1) (by omega)) hw

/-- A read ends the session, or takes the next line. -/
theorem read_cases (h : Serving exts orc nonce c₀ lines ending s k) (hidle : Idle c₀) :
    (∃ s' error, s.read orc = (s', .error error) ∧
      Protocol exts orc nonce c₀ lines ending (s', .error error)) ∨
    (∃ s', s.read orc = (s', .ok none) ∧ Protocol exts orc nonce c₀ lines ending (s', .ok ())) ∨
    (k < lines.length ∧ (orc.command k).readDeadline = false ∧ ∃ rest,
      s.read orc = ({ s with input := rest }, .ok (some (lines.getD k ""))) ∧
        submitted rest = (lines.drop (k + 1), ending)) := by
  unfold Session.read
  rw [h.length_dispatched]
  cases hdeadline : (orc.command k).readDeadline with
  | true =>
    refine Or.inl ⟨_, _, rfl, ?_⟩
    exact h.stopped hidle rfl rfl rfl (Or.inl ⟨hdeadline, by simp⟩)
  | false =>
    have hsub := h.input
    have hend (hnil : [] = lines.drop k) : k = lines.length :=
      Nat.le_antisymm h.count (List.drop_eq_nil_iff.1 hnil.symm)
    rcases hread : readLine s.input with ⟨error | _ | line, rest⟩
    · rw [submitted_error hread] at hsub
      obtain ⟨hnil, rfl⟩ := Prod.mk.inj hsub
      refine Or.inl ⟨_, _, rfl, ?_⟩
      refine h.stopped hidle ?_ ?_ ?_ (Or.inr ⟨hdeadline, hend hnil, by simp⟩)
      all_goals rfl
    · rw [submitted_none hread] at hsub
      obtain ⟨hnil, rfl⟩ := Prod.mk.inj hsub
      refine Or.inr (Or.inl ⟨_, rfl, ?_⟩)
      refine h.stopped hidle ?_ ?_ ?_ (Or.inr ⟨hdeadline, hend hnil, by simp⟩)
      all_goals rfl
    · rw [submitted_some hread] at hsub
      obtain ⟨hcons, hending⟩ := Prod.mk.inj hsub
      have hk : k < lines.length := by
        by_contra hle
        rw [List.drop_eq_nil_of_le (Nat.le_of_not_lt hle)] at hcons
        cases hcons
      rw [List.drop_eq_getElem_cons hk] at hcons
      obtain ⟨rfl, hrest⟩ := List.cons.inj hcons
      refine Or.inr (Or.inr ⟨hk, rfl, rest, ?_, Prod.ext hrest hending⟩)
      simp [hk, Except.mapError]

/-- A command is answered, or ends the session. -/
theorem command_cases (h : Serving exts orc nonce c₀ lines ending s k) (hidle : Idle c₀)
    (hk : k < lines.length) (hmax : k < maxCommands) (hdeadline : (orc.command k).readDeadline = false)
    {rest : Reader} (hrest : submitted rest = (lines.drop (k + 1), ending)) :
    (∃ s', Session.command exts orc nonce { s with input := rest } (lines.getD k "") = (s', .ok ()) ∧
      Serving exts orc nonce c₀ lines ending s' (k + 1)) ∨
    (∃ s' error, Session.command exts orc nonce { s with input := rest } (lines.getD k "") =
        (s', .error error) ∧ Protocol exts orc nonce c₀ lines ending (s', .error error)) := by
  have htake : s.dispatched ++ [lines.getD k ""] = lines.take (k + 1) := by
    rw [h.dispatched, List.getD_eq_getElem _ _ hk, List.take_append_getElem hk]
  unfold Session.command
  simp only [h.length_dispatched]
  cases ht : (orc.command k).timeout with
  | true =>
    right
    rw [if_pos rfl]
    rcases writeFrame_cases orc nonce { s with
        input := rest
        dispatched := s.dispatched ++ [lines.getD k ""]
        console := cutCommand exts (orc.command k) (lines.getD k "") s.console } timeoutFrame with
      ⟨hw, heq⟩ | ⟨n, hw, heq⟩
    · rw [heq]
      refine ⟨_, _, rfl, ?_⟩
      exact h.timedOut hidle hk hmax ht htake rfl rfl _
    · rw [heq]
      have hw' : orc.write (k + 1) ≠ none := by simp [← h.writes, hw]
      refine ⟨_, _, rfl, ?_⟩
      refine h.unwritten hidle hk hmax hw' htake ?_ ((timeoutFrame.bytes nonce).take n) ?_ _
      all_goals rfl
  | false =>
    rw [if_neg (by simp)]
    have hframe : commandFrame s.console.app.shellHistory.length
        (runCommand exts (orc.command k) (lines.getD k "") s.console).app =
          frameAt exts orc c₀ lines k := by rw [h.console]; rfl
    rw [hframe]
    rcases writeFrame_cases orc nonce { s with
        input := rest
        dispatched := s.dispatched ++ [lines.getD k ""]
        console := runCommand exts (orc.command k) (lines.getD k "") s.console }
        (frameAt exts orc c₀ lines k) with ⟨hw, heq⟩ | ⟨n, hw, heq⟩
    · rw [heq]
      have hw' : orc.write (k + 1) = none := h.writes ▸ hw
      have hsucc {P : ℕ → Prop} (hlt : ∀ i < k, P i) (hk : P k) : ∀ i < k + 1, P i := fun i hi =>
        (Nat.lt_succ_iff_lt_or_eq.1 hi).elim (hlt i) fun he => he ▸ hk
      refine Or.inl ⟨_, rfl, hk, hmax, ?_, hrest, htake, ?_, ?_, ?_, ?_, ?_, ?_⟩
      · rw [h.console]
        rfl
      · simp [h.frames, List.range_succ]
      · simp [h.out]
      · simp [h.writes]
      · intro i hi
        rcases Nat.lt_or_eq_of_le hi with hlt | rfl
        · exact h.written i (Nat.lt_succ_iff.1 hlt)
        · exact hw'
      · exact hsucc h.read hdeadline
      · exact hsucc h.ran ht
    · right
      rw [heq]
      have hw' : orc.write (k + 1) ≠ none := by simp [← h.writes, hw]
      refine ⟨_, _, rfl, ?_⟩
      refine h.unwritten hidle hk hmax hw' htake ?_
        (((frameAt exts orc c₀ lines k).bytes nonce).take n) ?_ _
      all_goals rfl

/-- **The loop**, from any number of commands on. -/
theorem protocol (hidle : Idle c₀) (fuel : ℕ) (h : Serving exts orc nonce c₀ lines ending s k)
    (hfuel : k + fuel = maxCommands) :
    Protocol exts orc nonce c₀ lines ending (s.commands exts orc nonce fuel) := by
  induction fuel generalizing s k with
  | zero =>
    unfold Session.commands Session.refuseFurther
    rcases h.read_cases hidle with
      ⟨s', error, heq, hstop⟩ | ⟨s', heq, hstop⟩ | ⟨hk, -, rest, heq, -⟩
    · simpa only [heq] using hstop
    · simpa only [heq] using hstop
    · simp only [heq]
      rcases writeFrame_cases orc nonce { s with input := rest } limitFrame with
        ⟨hw, hwrite⟩ | ⟨n, hw, hwrite⟩
      · simp only [hwrite]
        refine h.refused hidle hk hfuel ?_ (Or.inl ⟨h.writes ▸ hw, ?_, ?_⟩) _
        all_goals rfl
      · simp only [hwrite]
        have hw' : orc.write (k + 1) ≠ none := by simp [← h.writes, hw]
        refine h.refused hidle hk hfuel ?_
          (Or.inr ⟨hw', ?_, (limitFrame.bytes nonce).take n, ?_⟩) _
        all_goals rfl
  | succ fuel ih =>
    unfold Session.commands
    rcases h.read_cases hidle with
      ⟨s', error, heq, hstop⟩ | ⟨s', heq, hstop⟩ | ⟨hk, hdeadline, rest, heq, hrest⟩
    · simpa only [heq] using hstop
    · simpa only [heq] using hstop
    · simp only [heq]
      rcases h.command_cases hidle hk (by omega) hdeadline hrest with
        ⟨s', hcommand, hs'⟩ | ⟨s', error, hcommand, hprotocol⟩
      · simp only [hcommand]
        exact ih hs' (by omega)
      · simpa only [hcommand] using hprotocol

end Serving

/-- After a successful hop the console is idle. -/
theorem idle_enter {answers : Answers} {app : App} {options : ConsoleOptions}
    (hsession : app.session = none)
    (hopen : (dispatchEnter exts answers (Console.start app options)).1.app.session.isSome) :
    Idle (dispatchEnter exts answers (Console.start app options)).1 := by
  -- only an entered hop opens a session where there was none
  have hkept (app' : App) (hc : SameContext app app') (ho : app'.session.isSome) : False := by
    rw [hc.session, hsession] at ho
    cases ho
  cases effect_enter exts answers (Console.start app options) with
  | quiet hq hf hs => exact (hkept _ hq.context hopen).elim
  | missing hm => exact (hkept _ (.refl _) hm.1).elim
  | completed hb hf hs hc _ _ _ _ _ => exact (hkept _ hc hopen).elim
  | hopped hb hr hn hs ha hb' hm hh => exact ⟨hr, hb', hopen, ha ▸ hopen, by simp [Settled, hh]⟩
  | spawned hb line leg signal hl hr hn hs hc _ _ _ => exact (hkept _ hc hopen).elim

theorem protocol_afterHop (hidle : Idle c₀) (input : Reader) :
    Protocol exts orc nonce c₀ (submitted input).1 (submitted input).2
      (Session.afterHop exts orc nonce ⟨c₀, input, [], 0, [], []⟩) := by
  unfold Session.afterHop Session.write
  cases hw : orc.write 0 with
  | none =>
    refine Serving.protocol (k := 0) hidle maxCommands ?_ (Nat.zero_add _)
    refine ⟨Nat.zero_le _, Nat.zero_le _, rfl, rfl, rfl, rfl, ?_, rfl, ?_,
      fun i hi => absurd hi (Nat.not_lt_zero i), fun i hi => absurd hi (Nat.not_lt_zero i)⟩
    · simp [opening]
    · intro i hi
      rw [Nat.le_zero.1 hi, hw]
  | some n =>
    refine ⟨Or.inr ⟨by simp [hw], rfl, rfl, ?_⟩, List.nil_prefix, Nat.zero_le _, Or.inl rfl,
      fun i frame hi => absurd hi (Nat.not_lt_zero i), fun i hi => absurd hi (Nat.not_lt_zero i),
      (fun hmax => by cases hmax), iff_of_false (by simp) ?_, (fun hok => by cases hok)⟩
    · simpa [opening] using List.take_prefix n (writeln [readyLine nonce])
    · intro hc
      rw [hc.written 0 (Nat.zero_le _)] at hw
      cases hw

/-- **The structured session protocol.**  After a successful hop a session does
    what `Protocol` says of the lines its input submits; and what a stream of
    terminated commands submits is just these commands. -/
theorem session_protocol (orc : SessionOracle) (nonce : String) (app : App)
    (options : ConsoleOptions) (input : Reader) (hsession : app.session = none)
    (hdeadline : orc.hopDeadline = false)
    (hopen : (dispatchEnter exts orc.hop (Console.start app options)).1.app.session.isSome) :
    Protocol exts orc nonce (dispatchEnter exts orc.hop (Console.start app options)).1
        (submitted input).1 (submitted input).2 (runWithLimits exts orc nonce app options input) ∧
      ∀ commands, Terminated commands input → submitted input = (commands.map Prod.snd, .ok ()) := by
  refine ⟨?_, fun _ => submitted_terminated⟩
  have hrun : runWithLimits exts orc nonce app options input = Session.afterHop exts orc nonce
      ⟨(dispatchEnter exts orc.hop (Console.start app options)).1, input, [], 0, [], []⟩ := by
    have hsome : (dispatchEnter exts orc.hop (Console.start app options)).1.app.session.isNone =
        false := by simpa using hopen
    simp [runWithLimits, dispatch, hdeadline, hsome]
  rw [hrun]
  exact protocol_afterHop (idle_enter hsession hopen) input

end

/-- A session no deadline of which passes, and whose scripts are returned an asset and succeed. -/
def Sample.oracle : SessionOracle where
  hop := answers
  hopDeadline := false
  command _ := {
    readDeadline := false
    answers := answers
    timeout := false
    cut := .running
    intakes := [.register (.ok ⟨[1]⟩) ⟨"text/plain", .identity, 1⟩]
    script := some ⟨"a.txt", 0, false, 0, 0⟩
    join := .returned }
  write _ := none

/-- `ls`, in two chunks. -/
theorem session_protocol_sample :
    let c₀ := (dispatchEnter .plain Sample.answers (Console.start Sample.app Sample.options)).1
    let input := delivers [[108], [115, 10]]
    Protocol .plain Sample.oracle "nonce" c₀ (submitted input).1 (submitted input).2
        (runWithLimits .plain Sample.oracle "nonce" Sample.app Sample.options input) ∧
      ∀ commands, Terminated commands input → submitted input = (commands.map Prod.snd, .ok ()) :=
  session_protocol Sample.oracle "nonce" Sample.app Sample.options (delivers [[108], [115, 10]]) rfl
    rfl rfl

end DekoponConsole
