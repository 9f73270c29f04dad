/-
  The replay marks over runs of turns and commands.

  The console keeps counts, not turns: which turn an exchange of the history
  belongs to is recorded beside it (`Attributed`).

  * `Sequential` are the labels of a run in which a turn or a command starts when
    the one before it has been settled;
  * `Truthful` says that between two of them a turn is marked exactly if the live
    history holds its exchange;
  * `Recounted` is the condition on one pass: a submitted turn passes its gate, and
    a command whose task is lost took no exchange with it;
  * `Attribution` is the invariant: the turns the histories hold are a `window` of
    the transcript's;
  * `truthful_iff_recounted`: a run stays truthful exactly if all its passes meet
    the condition.
-/
import DekoponConsole.Lib.Runs
import DekoponConsole.Proof.Flight
import DekoponConsole.Proof.Startup

namespace DekoponConsole

open App

variable {exts : Externals}

/-! ## Attribution -/

/-- A console with the turns, oldest first, whose exchanges the live history
    holds, and those whose exchanges moved into the task in flight. -/
structure Attributed where
  console : Console
  live : List ℕ
  moved : List ℕ

namespace Attributed

def start (c : Console) : Attributed := ⟨c, [], []⟩

/-- The turns whose exchanges a task hands back: those it was given and, if it
    is a model turn, the last one. -/
def handed (a : Attributed) (task : Task) : List ℕ :=
  if task.isShell then a.moved else a.moved ++ [a.console.app.transcript.turns.length - 1]

/-- The turns the history of the next state is made from. -/
def source (a : Attributed) : Label → List ℕ
  | .close (.returned _) =>
    match a.console.running with
    | some turn => a.handed turn.task
    | none => a.live
  | _ => a.live

/-- The console moves on to `c`, with a history made from the turns `held`: it
    holds the newest of them. -/
def after (a : Attributed) (c : Console) (held : List ℕ) : Attributed where
  console := c
  live := held.rtake c.history.len
  moved := if a.console.running.isNone then a.live else a.moved

/-- One pass of the loop. -/
def next (exts : Externals) (a : Attributed) (l : Label) : Attributed :=
  a.after (step exts a.console l) (a.source l)

end Attributed

/-- The marked turns are those of `held`. -/
def MarkedTurns (held : List ℕ) (app : App) : Prop :=
  ∀ i turn, app.transcript.turns[i]? = some turn → (turn.inReplayWindow = true ↔ i ∈ held)

/-- Once everything is settled, a turn is marked exactly if the live history holds
    its exchange. -/
def Truthful (a : Attributed) : Prop := a.console.running = none → MarkedTurns a.live a.console.app

/-- What a task hands back: a command the history it was given, a turn the newest
    exchanges of that and its own. -/
def Task.Appends : Task → History → Prop
  | .shell _ _ _ previous, history => history = previous
  | .turn _ _ _ _ _ _ given, history =>
    ∃ x k, history.exchanges = (given.exchanges ++ [x]).drop k

/-- The pass dispatches an action. -/
def Performs (exts : Externals) (c : Console) : Label → Prop
  | .key key _ => (onKey exts c.app key c.stop).1.isSome
  | .action _ _ | .submitTurn _ => True
  | _ => False

/-- The labels of the loop, where an action that is not refused for being busy
    finds no task in flight.  A turn is dispatched when it was submitted. -/
def Sequential (exts : Externals) (c : Console) (l : Label) : Prop :=
  (Performs exts c l → c.app.busy = false → c.running = none) ∧
    match l with
    | .action (.turn _) _ => False
    | .close joined => ∃ turn, c.running = some turn ∧
        ∀ history, joined = .returned history → turn.task.Appends history
    | l => Admits c l

/-- A submitted turn passes its gate, and a command that hands nothing back was
    given nothing. -/
def Recounted (c : Console) : Label → Prop
  | .submitTurn answers => c.app.submitTurn.1.isSome → answers.Granted
  | .close (.returned _) => True
  | .close _ => ∀ turn, c.running = some turn → turn.task.isShell →
      turn.task.given.exchanges = []
  | _ => True

/-! ## Windows -/

/-- The last `k` of `n` turns. -/
def window (n k : ℕ) : List ℕ := List.range' (n - k) k

theorem mem_window {n k i : ℕ} (h : k ≤ n) : i ∈ window n k ↔ n - k ≤ i ∧ i < n := by
  rw [window, List.mem_range'_1]
  omega

theorem window_succ {n k : ℕ} (h : k ≤ n) : window (n + 1) (k + 1) = window n k ++ [n] := by
  rw [window, Nat.add_sub_add_right, List.range'_concat, one_mul, Nat.sub_add_cancel h, window]

theorem rtake_window {n k j : ℕ} (hj : j ≤ k) (hk : k ≤ n) :
    (window n k).rtake j = window n j := by
  rw [List.rtake, window, List.length_range', List.drop_range', window]
  congr 1 <;> omega

theorem rtake_window_self {n k : ℕ} (h : k ≤ n) : (window n k).rtake k = window n k :=
  rtake_window le_rfl h

/-! ## Marks -/

section
variable {held : List ℕ} {app app' : App}

theorem marked_iff :
    MarkedTurns held app ↔ ∀ i mark, app.marks[i]? = some mark → (mark = true ↔ i ∈ held) := by
  simp [MarkedTurns, marks, List.getElem?_map]

theorem marked_congr (h : app'.marks = app.marks) : MarkedTurns held app' ↔ MarkedTurns held app := by
  rw [marked_iff, marked_iff, h]

/-- A turn that is marked while the turns held are older is marked wrongly. -/
theorem not_marked_concat (h : app'.marks = app.marks ++ [true])
    (hheld : ∀ i ∈ held, i < app.marks.length) : ¬MarkedTurns held app' := by
  intro hm
  have hlast := (marked_iff.1 hm) app.marks.length true (by rw [h, List.getElem?_concat_length])
  exact absurd (hheld _ (hlast.1 rfl)) (lt_irrefl _)

/-- After a model turn the marks are those of the history's window. -/
theorem marked_onSessionComplete {k : ℕ} (h : k ≤ app.marks.length) :
    MarkedTurns (window app.marks.length k) (app.onSessionComplete k) := by
  have hlen : app.marks.length = app.transcript.turns.length := List.length_map _
  rw [marked_iff, marks_onSessionComplete, hlen]
  intro i mark hi
  simp only [Transcript.markReplayWindow, List.getElem?_map, List.getElem?_mapIdx, Option.map_map,
    Option.map_eq_some_iff, Function.comp] at hi
  obtain ⟨turn, hturn, rfl⟩ := hi
  have hlt := (List.getElem?_eq_some_iff.1 hturn).1
  rw [mem_window (hlen ▸ h)]
  simp [hlt]

/-- Marks that tell of a window of turns tell of none only if it is empty. -/
theorem marked_nil_iff {k : ℕ} (hk : k ≤ app.marks.length)
    (hm : MarkedTurns (window app.marks.length k) app) : MarkedTurns [] app ↔ k = 0 := by
  constructor
  · intro hnone
    by_contra hpos
    -- the newest turn of the window is marked
    have hlast : app.marks.length - 1 ∈ window app.marks.length k := (mem_window hk).2 (by omega)
    obtain ⟨mark, hmark⟩ : ∃ mark, app.marks[app.marks.length - 1]? = some mark :=
      ⟨_, List.getElem?_eq_getElem (by omega)⟩
    have htrue := ((marked_iff.1 hm) _ mark hmark).2 hlast
    exact List.not_mem_nil (((marked_iff.1 hnone) _ mark hmark).1 htrue)
  · rintro rfl
    exact hm

end

/-! ## The invariant -/

/-- How many exchanges a task can hand back. -/
def Task.made (task : Task) : ℕ := if task.isShell then task.given.len else task.given.len + 1

/-- The histories hold exchanges of the last turns: while a task is in flight, the
    live one none, and the one it may hand back those of a window. -/
structure Flies (a : Attributed) (task : Task) : Prop where
  history : a.console.history = .new
  live : a.live = []
  fits : task.made ≤ a.console.app.marks.length
  handed : a.handed task = window a.console.app.marks.length task.made
  marked : task.isShell → MarkedTurns a.moved a.console.app

/-- The inductive invariant. -/
structure Attribution (a : Attributed) : Prop where
  assets : a.console.app.session.isSome = a.console.app.assets.isSome
  shell : ∀ turn, a.console.running = some turn → turn.shell = turn.task.isShell
  idle : a.console.running = none → a.console.history.len ≤ a.console.app.marks.length ∧
    a.live = window a.console.app.marks.length a.console.history.len
  flying : ∀ turn, a.console.running = some turn → Flies a turn.task

theorem Attribution.of_idle {a : Attributed} (hr : a.console.running = none)
    (ha : a.console.app.session.isSome = a.console.app.assets.isSome)
    (hle : a.console.history.len ≤ a.console.app.marks.length)
    (hlive : a.live = window a.console.app.marks.length a.console.history.len) : Attribution a := by
  refine ⟨ha, fun turn ht => ?_, fun _ => ⟨hle, hlive⟩, fun turn ht => ?_⟩
  · cases hr.symm.trans ht
  · cases hr.symm.trans ht

/-- A history that was emptied holds no exchange. -/
theorem live_of_new {a : Attributed} {c : Console} (hn : c.history = .new) (held : List ℕ) :
    (a.after c held).live = [] := by
  rw [Attributed.after, hn]
  exact List.rtake_zero _

/-- What neither the histories nor the marks depend on may change. -/
structure Still (c c' : Console) : Prop where
  task : c'.running.map RunningTurn.task = c.running.map RunningTurn.task
  shell : c'.running.map RunningTurn.shell = c.running.map RunningTurn.shell
  history : c'.history = c.history
  session : c'.app.session = c.app.session
  assets : c'.app.assets = c.app.assets
  marks : c'.app.marks = c.app.marks

theorem Still.of_flight {c c' : Console} (hf : SameFlight c c') (hc : SameContext c.app c'.app)
    (hm : c'.app.marks = c.app.marks) : Still c c' :=
  ⟨by rw [hf.running], by rw [hf.running], hf.history, hc.session, hc.assets, hm⟩

/-- The exchanges held stay those of their turns. -/
theorem Attribution.live_eq {a : Attributed} (h : Attribution a) :
    a.live.rtake a.console.history.len = a.live := by
  cases hr : a.console.running with
  | none =>
    obtain ⟨hle, hlive⟩ := h.idle hr
    rw [hlive, rtake_window_self hle]
  | some turn =>
    rw [(h.flying turn hr).live]
    exact List.rtake_nil _

theorem length_marks (app : App) : app.marks.length = app.transcript.turns.length :=
  List.length_map _

theorem handed_congr {a a' : Attributed} (hmoved : a'.moved = a.moved)
    (hmarks : a'.console.app.marks = a.console.app.marks) (task : Task) :
    a'.handed task = a.handed task := by
  simp only [Attributed.handed, ← length_marks, hmoved, hmarks]

/-! ## One pass -/

section
variable {a : Attributed} {c : Console}

theorem Still.running_none (hs : Still a.console c) (hr : c.running = none) :
    a.console.running = none := by
  have := hs.task
  rw [hr] at this
  exact Option.map_eq_none_iff.1 this.symm

theorem Still.attribution (h : Attribution a) (hs : Still a.console c) :
    Attribution (a.after c a.live) := by
  have hlive : (a.after c a.live).live = a.live := by
    rw [Attributed.after, hs.history, h.live_eq]
  refine ⟨?_, ?_, ?_, ?_⟩
  · show c.app.session.isSome = c.app.assets.isSome
    rw [hs.session, hs.assets, h.assets]
  · intro turn (hr : c.running = some turn)
    have htask := hs.task
    have hshell := hs.shell
    cases hr₀ : a.console.running with
    | none => simp [hr, hr₀] at htask
    | some turn₀ =>
      simp only [hr, hr₀, Option.map_some, Option.some.injEq] at htask hshell
      rw [hshell, htask, h.shell turn₀ hr₀]
  · intro (hr : c.running = none)
    rw [hlive]
    show c.history.len ≤ c.app.marks.length ∧ a.live = window c.app.marks.length c.history.len
    rw [hs.history, hs.marks]
    exact h.idle (hs.running_none hr)
  · intro turn (hr : c.running = some turn)
    have htask := hs.task
    cases hr₀ : a.console.running with
    | none => simp [hr, hr₀] at htask
    | some turn₀ =>
      simp only [hr, hr₀, Option.map_some, Option.some.injEq] at htask
      have hf := h.flying turn₀ hr₀
      have hmoved : (a.after c a.live).moved = a.moved := by simp [Attributed.after, hr₀]
      rw [htask]
      refine ⟨hs.history.trans hf.history, hlive.trans hf.live, ?_, ?_, ?_⟩
      · show turn₀.task.made ≤ c.app.marks.length
        rw [hs.marks]
        exact hf.fits
      · rw [handed_congr hmoved hs.marks, hf.handed, ← hs.marks]
        rfl
      · intro hshell
        rw [hmoved]
        exact (marked_congr hs.marks).2 (hf.marked hshell)

theorem Still.truthful (h : Attribution a) (hs : Still a.console c) (hp : Truthful a) :
    Truthful (a.after c a.live) := by
  intro (hr : c.running = none)
  show MarkedTurns (a.live.rtake c.history.len) c.app
  rw [hs.history, h.live_eq, marked_congr hs.marks]
  exact hp (hs.running_none hr)

/-! ### Keys, hops and commands -/

/-- What an action does to a busy console is still. -/
theorem Effect.still_or_idle (h : Attribution a)
    (hidle : a.console.app.busy = false → a.console.running = none) (he : Effect a.console c) :
    Still a.console c ∨ (a.console.running = none ∧ Effect a.console c) := by
  by_cases hb : a.console.app.busy
  · left
    cases he with
    | quiet hq hf hs => exact .of_flight hf hq.context hq.marks
    | missing hm => exact absurd hm (not_missing h.assets)
    | completed hb' => simp [hb'] at hb
    | hopped hb' => simp [hb'] at hb
    | spawned hb' => simp [hb'] at hb
  · exact Or.inr ⟨hidle (by simpa using hb), he⟩

/-- A key that yields no action is still. -/
theorem still_or_idle_key (h : Attribution a) {key : KeyEvent} {answers : Answers}
    (hl : Sequential exts a.console (.key key answers)) :
    Still a.console (step exts a.console (.key key answers)) ∨
      (a.console.running = none ∧ Effect a.console (step exts a.console (.key key answers))) := by
  cases hk : (onKey exts a.console.app key a.console.stop).1 with
  | some action =>
    exact (effect_key exts key answers a.console).still_or_idle h (hl.1 (by simp [Performs, hk]))
  | none =>
    have hq := (keyEffect_onKey exts a.console.app key a.console.stop).quiet
    left
    simp only [step, react, hk]
    exact .of_flight ⟨rfl, rfl⟩ hq.context hq.marks

theorem still_intake {c : Console} (hr : c.running.isSome) (intake : Intake) :
    Still c (step exts c (.intake intake)) := by
  obtain ⟨turn, hr⟩ := Option.isSome_iff_exists.1 hr
  simp only [step, react, hr]
  exact .of_flight ⟨hr.symm, rfl⟩ (.refl _) rfl

/-- A task that is spawned takes the live history with it. -/
theorem attribution_spawned (h : Attribution a) (hr : a.console.running = none) (task : Task)
    (hr' : c.running = some ⟨task, task.isShell, false⟩) (hn : c.history = .new)
    (hgiven : task.given = a.console.history) (hc : SameContext a.console.app c.app)
    (hmarks : c.app.marks = a.console.app.marks ++ if task.isShell then [] else [true])
    (hmarked : task.isShell → MarkedTurns a.live c.app) : Attribution (a.after c a.live) := by
  obtain ⟨hle, hlive⟩ := h.idle hr
  have hmoved : (a.after c a.live).moved = a.live := by simp [Attributed.after, hr]
  refine ⟨?_, ?_, fun hnone => ?_, ?_⟩
  · exact hc.inventory h.assets
  · intro turn ht
    obtain rfl := Option.some.inj (hr'.symm.trans ht)
    rfl
  · cases hr'.symm.trans hnone
  · intro turn ht
    obtain rfl := Option.some.inj (hr'.symm.trans ht)
    have hlen : c.app.marks.length =
        a.console.app.marks.length + if task.isShell then 0 else 1 := by
      rw [hmarks, List.length_append]
      split_ifs <;> rfl
    refine ⟨hn, live_of_new hn _, ?_, ?_, ?_⟩
    · show task.made ≤ c.app.marks.length
      rw [hlen, Task.made, hgiven]
      split_ifs <;> omega
    · show (a.after c a.live).handed task = window c.app.marks.length task.made
      unfold Attributed.handed Task.made
      rw [hmoved, hlive, hlen, hgiven]
      show (if task.isShell then _ else _ ++ [c.app.transcript.turns.length - 1]) = _
      rw [← length_marks, hlen]
      split_ifs
      · rfl
      · rw [window_succ hle, Nat.add_sub_cancel]
    · intro hs
      rw [hmoved]
      exact hmarked hs

/-- What a key, a hop or a command does while nothing is in flight keeps the
    invariant and the marks true. -/
theorem Effect.attributed (h : Attribution a) (hp : Truthful a) (hr : a.console.running = none)
    (he : Effect a.console c) :
    Attribution (a.after c a.live) ∧ Truthful (a.after c a.live) := by
  cases he with
  | quiet hq hf hs =>
    have hstill : Still a.console c := .of_flight hf hq.context hq.marks
    exact ⟨hstill.attribution h, hstill.truthful h hp⟩
  | missing hm => exact absurd hm (not_missing h.assets)
  | completed hb hf hs hc hb' hm entry he hh ht =>
    have hstill : Still a.console c := .of_flight hf hc ht
    exact ⟨hstill.attribution h, hstill.truthful h hp⟩
  | hopped hb hr' hn hs ha hb' hm hh ht =>
    have hlive := live_of_new (a := a) hn a.live
    refine ⟨.of_idle (hr'.trans hr) ha ?_ ?_, ?_⟩
    · show c.history.len ≤ _
      rw [hn]
      exact Nat.zero_le _
    · rw [hlive]
      show [] = window c.app.marks.length c.history.len
      rw [hn]
      rfl
    · intro _
      rw [marked_iff]
      intro i mark hi
      rw [show (a.after c a.live).console.app.marks = [] from ht] at hi
      cases hi
  | spawned hb line leg signal hl hr' hn hs hc hb' hm hh ht =>
    refine ⟨attribution_spawned h hr _ hr' hn rfl hc (ht.trans (List.append_nil _).symm) ?_, ?_⟩
    · intro _
      exact (marked_congr ht).2 (hp hr)
    · intro hnone
      cases hr'.symm.trans hnone

/-! ### Model turns -/

/-- A submitted turn keeps the marks true exactly if it is sent to a model or not
    at all. -/
theorem Submitted.truthful_iff (h : Attribution a) (hp : Truthful a) {answers : Answers}
    (hperforms : a.console.app.busy = false → a.console.running = none)
    (hs : Submitted answers a.console c) :
    (Truthful (a.after c a.live) ↔ (a.console.app.submitTurn.1.isSome → answers.Granted)) ∧
      (Truthful (a.after c a.live) → Attribution (a.after c a.live)) := by
  cases hs with
  | unsent hp' hq hf =>
    have hstill : Still a.console c := .of_flight hf hq.context hq.marks
    refine ⟨iff_of_true (hstill.truthful h hp) fun hsome => ?_, fun _ => hstill.attribution h⟩
    simp [hp'] at hsome
  | missing hm => exact absurd hm (not_missing h.assets)
  | refused hsome hg hb hf hc ht =>
    have hr := hperforms hb
    obtain ⟨hle, hlive⟩ := h.idle hr
    have hfalse : ¬Truthful (a.after c a.live) := by
      intro htruth
      have hmarked : MarkedTurns (a.live.rtake c.history.len) c.app := htruth (hf.running.trans hr)
      rw [hf.history, h.live_eq] at hmarked
      refine not_marked_concat ht (fun i hi => ?_) hmarked
      rw [hlive] at hi
      exact ((mem_window hle).1 hi).2
    exact ⟨iff_of_false hfalse fun hgranted => hg (hgranted hsome), fun htruth => absurd htruth hfalse⟩
  | spawned hsome hg hb task htask hgiven hl hr' hn hc ht =>
    have hr := hperforms hb
    refine ⟨iff_of_true (fun hnone => ?_) fun _ => hg, fun _ => ?_⟩
    · cases hr'.symm.trans hnone
    · refine attribution_spawned h hr task ?_ hn hgiven hc ?_ ?_
      · rw [htask]
        exact hr'
      · simpa [htask] using ht
      · simp [htask]

/-! ### Events and joins -/

theorem still_receive (c : Console) (event : SessionEvent) : Still c (receive c event) := by
  have hc : SameContext c.app (receive c event).app := sameContext_onEvent c.app event
  refine ⟨?_, ?_, rfl, hc.session, hc.assets, marks_onEvent c.app event⟩
  · simp [receive, Function.comp_def]
  · simp [receive, Function.comp_def]

theorem Task.Appends.len_le {task : Task} {history : History} (h : task.Appends history) :
    history.len ≤ task.made := by
  cases task with
  | shell line leg signal previous =>
    obtain rfl : history = previous := h
    exact le_rfl
  | turn prompt leg signal instructions agent options given =>
    obtain ⟨x, k, hx⟩ := h
    show history.exchanges.length ≤ given.exchanges.length + 1
    rw [hx, List.length_drop, List.length_append]
    exact Nat.sub_le _ _

/-- The history a join leaves holds the exchanges of the last turns. -/
theorem joined_window (h : Attribution a) {turn : RunningTurn} (hr : a.console.running = some turn)
    {joined : Joined} (happends : ∀ history, joined = .returned history → turn.task.Appends history) :
    (joinedHistory joined a.console.history).len ≤ a.console.app.marks.length ∧
      (a.source (.close joined)).rtake (joinedHistory joined a.console.history).len =
        window a.console.app.marks.length (joinedHistory joined a.console.history).len := by
  have hf := h.flying turn hr
  have hlost : (∀ history, joined ≠ .returned history) →
      (joinedHistory joined a.console.history).len ≤ a.console.app.marks.length ∧
      a.live.rtake (joinedHistory joined a.console.history).len =
        window a.console.app.marks.length (joinedHistory joined a.console.history).len := by
    intro hne
    have hnew : joinedHistory joined a.console.history = .new := by
      cases joined with
      | returned history => exact absurd rfl (hne history)
      | failed error => exact hf.history
      | died error => exact hf.history
    rw [hnew, hf.live]
    exact ⟨Nat.zero_le _, rfl⟩
  cases joined with
  | returned history =>
    have hle := (happends history rfl).len_le
    simp only [Attributed.source, hr, joinedHistory, hf.handed]
    exact ⟨hle.trans hf.fits, rtake_window hle hf.fits⟩
  | failed error => exact hlost fun _ h => by cases h
  | died error => exact hlost fun _ h => by cases h

theorem marks_settleTurn_shell (exts : Externals) (joined : Joined) (c : Console) :
    (settleTurn exts true joined c).app.marks = c.app.marks := by
  rw [settleTurn_eq]
  exact marks_eq ((transcript_settleShell exts _).trans
    (transcript_reportJoined exts true joined c.app))

theorem marked_settleTurn (exts : Externals) {joined : Joined} {c : Console}
    (hle : (joinedHistory joined c.history).len ≤ c.app.marks.length) :
    (settleTurn exts false joined c).app.marks.length = c.app.marks.length ∧
      MarkedTurns (window c.app.marks.length (joinedHistory joined c.history).len)
        (settleTurn exts false joined c).app := by
  have hreported := marks_eq (transcript_reportJoined exts false joined c.app)
  rw [settleTurn_eq]
  simp only [Bool.false_eq_true, if_false]
  rw [← hreported] at hle ⊢
  refine ⟨?_, marked_onSessionComplete hle⟩
  rw [marks_onSessionComplete, Transcript.markReplayWindow, List.length_map, List.length_mapIdx,
    length_marks]

/-- A command's join keeps the marks true exactly if it hands its history back or
    was given none. -/
theorem marked_shell_iff {task : Task} (hf : Flies a task) (hshell : task.isShell) {joined : Joined}
    (happends : ∀ history, joined = .returned history → task.Appends history) :
    MarkedTurns (window a.console.app.marks.length (joinedHistory joined a.console.history).len)
        a.console.app ↔
      (∃ history, joined = .returned history) ∨ task.given.exchanges = [] := by
  have hmarked := hf.marked hshell
  have hhanded := hf.handed
  have hmade : task.made = task.given.len := if_pos hshell
  have hmoved : a.handed task = a.moved := if_pos hshell
  rw [← hmoved, hhanded, hmade] at hmarked
  have hfits := hf.fits
  rw [hmade] at hfits
  have hlost (hnew : joinedHistory joined a.console.history = .new) :
      MarkedTurns (window a.console.app.marks.length (joinedHistory joined a.console.history).len)
        a.console.app ↔ task.given.exchanges = [] := by
    rw [hnew]
    exact (marked_nil_iff hfits hmarked).trans List.length_eq_zero_iff
  cases joined with
  | returned history =>
    refine iff_of_true ?_ (Or.inl ⟨history, rfl⟩)
    cases task with
    | shell line leg signal previous =>
      obtain rfl : history = previous := happends history rfl
      exact hmarked
    | turn prompt leg signal instructions agent options given => cases hshell
  | failed error => simpa using hlost hf.history
  | died error => simpa using hlost hf.history

/-- A join keeps the marks true exactly if it loses no exchange of a command's. -/
theorem truthful_finishTurn_iff (h : Attribution a) {joined : Joined}
    (hl : Sequential exts a.console (.close joined)) :
    (Truthful (a.next exts (.close joined)) ↔ Recounted a.console (.close joined)) ∧
      Attribution (a.next exts (.close joined)) := by
  obtain ⟨-, turn, hr, happends⟩ := hl
  have hf := h.flying turn hr
  obtain ⟨hle, hlive⟩ := joined_window h hr happends
  set idle : Console := { a.console with running := none } with hidle
  have hstep : step exts a.console (.close joined) = settleTurn exts turn.task.isShell joined idle := by
    simp only [step, react, finishTurn, hr, h.shell turn hr, hidle]
  have hrunning : (step exts a.console (.close joined)).running = none := by
    rw [hstep, settleTurn_eq]
  have hhistory : (step exts a.console (.close joined)).history =
      joinedHistory joined a.console.history := by
    rw [hstep, settleTurn_eq]
  have hheld : (a.next exts (.close joined)).live =
      window a.console.app.marks.length (joinedHistory joined a.console.history).len := by
    show (a.source (.close joined)).rtake (step exts a.console (.close joined)).history.len = _
    rw [hhistory, hlive]
  have hmarks : (step exts a.console (.close joined)).app.marks.length = a.console.app.marks.length ∧
      (MarkedTurns (a.next exts (.close joined)).live (step exts a.console (.close joined)).app ↔
        Recounted a.console (.close joined)) := by
    rw [hheld, hstep]
    cases hshell : turn.task.isShell with
    | true =>
      have hkept := marks_settleTurn_shell exts joined idle
      refine ⟨by rw [hkept], ?_⟩
      rw [marked_congr hkept]
      refine (marked_shell_iff hf hshell happends).trans ?_
      cases joined with
      | returned history => exact iff_of_true (Or.inl ⟨history, rfl⟩) trivial
      | failed error => simp [Recounted, hr, hshell]
      | died error => simp [Recounted, hr, hshell]
    | false =>
      obtain ⟨hlen, hmarked⟩ := marked_settleTurn exts (c := idle) hle
      refine ⟨hlen, iff_of_true hmarked ?_⟩
      cases joined with
      | returned history => trivial
      | failed error => simp [Recounted, hr, hshell]
      | died error => simp [Recounted, hr, hshell]
  obtain ⟨hlen, hiff⟩ := hmarks
  refine ⟨⟨fun htruth => hiff.1 (htruth hrunning), fun hd _ => hiff.2 hd⟩,
    .of_idle hrunning ?_ ?_ ?_⟩
  · have hc := (sameContext_settleTurn exts turn.task.isShell joined idle).app
    rw [← hstep] at hc
    exact hc.inventory h.assets
  · show (step exts a.console (.close joined)).history.len ≤
      (step exts a.console (.close joined)).app.marks.length
    rw [hlen, hhistory]
    exact hle
  · rw [hheld]
    show _ = window (step exts a.console (.close joined)).app.marks.length
      (step exts a.console (.close joined)).history.len
    rw [hlen, hhistory]

/-- **One pass** keeps the marks true exactly if it meets the condition, and then
    keeps the invariant. -/
theorem truthful_next_iff (h : Attribution a) (hp : Truthful a) {l : Label}
    (hl : Sequential exts a.console l) :
    (Truthful (a.next exts l) ↔ Recounted a.console l) ∧
      (Truthful (a.next exts l) → Attribution (a.next exts l)) := by
  have hdispatched (hs : a.source l = a.live) (hd : Recounted a.console l)
      (he : Still a.console (step exts a.console l) ∨
        (a.console.running = none ∧ Effect a.console (step exts a.console l))) :
      (Truthful (a.next exts l) ↔ Recounted a.console l) ∧
        (Truthful (a.next exts l) → Attribution (a.next exts l)) := by
    rw [Attributed.next, hs]
    rcases he with hstill | ⟨hr, he⟩
    · exact ⟨iff_of_true (hstill.truthful h hp) hd, fun _ => hstill.attribution h⟩
    · obtain ⟨hkept, htruth⟩ := he.attributed h hp hr
      exact ⟨iff_of_true htruth hd, fun _ => hkept⟩
  cases l with
  | key key answers => exact hdispatched rfl trivial (still_or_idle_key h hl)
  | action action answers =>
    refine hdispatched rfl trivial (Effect.still_or_idle h (hl.1 trivial) ?_)
    cases action with
    | enter => exact effect_enter exts answers a.console
    | shell line => exact effect_shell exts answers a.console line
    | turn prompt => exact hl.2.elim
  | submitTurn answers =>
    exact (submitted_submitTurn exts answers a.console).truthful_iff h hp fun hb => hl.1 trivial hb
  | event event => exact hdispatched rfl trivial (Or.inl (still_receive a.console event))
  | close joined =>
    obtain ⟨hiff, hkept⟩ := truthful_finishTurn_iff h hl
    exact ⟨hiff, fun _ => hkept⟩
  | intake intake => exact hdispatched rfl trivial (Or.inl (still_intake hl.2 intake))
  | resize width height =>
    exact hdispatched rfl trivial (Or.inl (.of_flight ⟨rfl, rfl⟩ (by constructor <;> rfl) rfl))

end

/-! ## Every run -/

/-- **The marks over runs.**  From any console without an open entry, a run keeps
    the replay marks true exactly if every submitted turn passes its gate and every
    command whose task is lost was given an empty history. -/
theorem truthful_iff_recounted (app : App) (options : ConsoleOptions) (ls : List Label)
    (hsession : app.session = none) (hassets : app.assets = none)
    (htranscript : app.transcript = .empty)
    (hls : Runs.Steps (step exts) (Sequential exts) (Console.start app options) ls) :
    Runs.Always (Attributed.next exts) Truthful (.start (Console.start app options)) ls ↔
      Runs.Steps (step exts) Recounted (Console.start app options) ls := by
  have hconsole (a : Attributed) (l : Label) :
      (a.next exts l).console = step exts a.console l := rfl
  have hmarks : app.marks = [] := by rw [marks, htranscript]; rfl
  refine (Runs.always_iff_steps (I := Attribution) (C := fun a l => Sequential exts a.console l)
    (D := fun a l => Recounted a.console l)
    (fun _ _ hl hp h htruth => (truthful_next_iff h hp hl).2 htruth)
    (fun _ _ hl hp h => (truthful_next_iff h hp hl).1) ?_ ?_
    ((Runs.steps_map hconsole _ ls).2 hls)).trans (Runs.steps_map hconsole _ ls)
  · refine .of_idle rfl ?_ (Nat.zero_le _) rfl
    show app.session.isSome = app.assets.isSome
    rw [hsession, hassets]
    rfl
  · intro _
    rw [marked_iff]
    intro i mark hi
    rw [show (Attributed.start (Console.start app options)).console.app.marks = [] from hmarks] at hi
    cases hi

namespace Sample

/-- A turn in `ops` that runs to completion, and a command. -/
def settled : List Label :=
  typed ++ [.submitTurn answers, .event (.finished (.ok ⟨"hello", .send⟩)),
    .close (.returned ⟨[⟨"h", "hello", 0⟩]⟩), .action (.shell "ls") answers,
    .event (.shellFinished ⟨"ls", "a.txt", some 0, false⟩),
    .close (.returned ⟨[⟨"h", "hello", 0⟩]⟩)]

end Sample

/-- A completed turn and a command that hands the history back. -/
theorem truthful_iff_recounted_settled :
    Runs.Always (Attributed.next .plain) Truthful (.start (Console.start Sample.app Sample.options))
      Sample.settled := by
  have hgranted : Sample.answers.Granted := ⟨⟨_, rfl, by simp⟩, rfl⟩
  refine (truthful_iff_recounted Sample.app Sample.options _ rfl rfl rfl ?_).2 ?_
  · refine ⟨⟨fun _ _ => rfl, trivial⟩, ⟨fun _ _ => rfl, trivial⟩, ⟨fun _ _ => rfl, trivial⟩,
      ⟨fun h => h.elim, _, rfl, rfl, trivial⟩, ⟨fun h => h.elim, _, rfl, ?_⟩,
      ⟨fun _ _ => rfl, trivial⟩, ⟨fun h => h.elim, _, rfl, rfl, rfl, rfl⟩,
      ⟨fun h => h.elim, _, rfl, ?_⟩, trivial⟩
    · intro history h
      obtain rfl := Joined.returned.inj h
      exact ⟨⟨"h", "hello", 0⟩, 0, rfl⟩
    · intro history h
      obtain rfl := Joined.returned.inj h
      rfl
  · exact ⟨trivial, trivial, fun _ => hgranted, trivial, trivial, trivial, trivial, trivial, trivial⟩

/-- A turn refused for want of a broker stays marked, though no history ever holds
    an exchange of it. -/
theorem refused_turn_marked :
    Runs.Steps (step .plain) (Sequential .plain) (Console.start Sample.app Sample.options)
        (Sample.typed ++ [.submitTurn Sample.gone]) ∧
      ¬Runs.Always (Attributed.next .plain) Truthful
        (.start (Console.start Sample.app Sample.options))
        (Sample.typed ++ [.submitTurn Sample.gone]) := by
  constructor
  · exact ⟨⟨fun _ _ => rfl, trivial⟩, ⟨fun _ _ => rfl, trivial⟩, ⟨fun _ _ => rfl, trivial⟩, trivial⟩
  · intro h
    have := (h.last rfl 0 _ rfl).1 rfl
    cases this

end DekoponConsole
