/-
  The replay window over agent entries.

  An agent entry is named by its inventory, which no other entry has, and an
  exchange by that of the leg it went through.

  * `Isolated`: the live history holds exchanges of the open entry only;
  * `Replaying` are the labels of the loop: anything it can meet, where the task
    of a turn returns the history it was given and its own exchange;
  * `Rejoins` is the condition on one pass: a turn whose channel closes finds the
    entry it was started under, or none, open;
  * `Moves` lists what a key, a hop, a command or a turn can do to the history;
  * `isolated_iff_rejoins`: a run stays isolated exactly if all its passes meet
    the condition.
-/
import DekoponConsole.Lib.Runs
import DekoponConsole.Proof.Flight
import DekoponConsole.Proof.Startup

namespace DekoponConsole

open App

variable {exts : Externals}

/-! ## Isolation -/

/-- Every exchange went through the inventory. -/
def History.Of (h : History) (store : StoreId) : Prop := ∀ x ∈ h.exchanges, x.entry = store

theorem History.of_new (store : StoreId) : History.new.Of store :=
  fun _ hx => absurd hx List.not_mem_nil

/-- While an entry is open, the live history holds its exchanges only. -/
def Isolated (c : Console) : Prop := ∀ store, c.app.assets = some store → c.history.Of store

/-- What a task hands back: a command the history it was given, a turn that with
    an exchange of its own. -/
def Task.Extends : Task → History → Prop
  | .shell _ _ _ previous, history => history = previous
  | .turn _ leg _ _ _ _ given, history =>
    ∃ x, x.entry = leg.store ∧ history.exchanges = given.exchanges ++ [x]

/-- The labels of the loop.  A turn is dispatched when it was submitted. -/
def Replaying (c : Console) : Label → Prop
  | .action (.turn _) _ => False
  | .close joined => ∃ turn, c.running = some turn ∧
      ∀ history, joined = .returned history → turn.task.Extends history
  | l => Admits c l

/-- A turn that hands its history back finds its own entry open, or none. -/
def Rejoins (c : Console) : Label → Prop
  | .close (.returned _) => ∀ turn, c.running = some turn → turn.shell = false →
      c.app.assets = none ∨ c.app.assets = some turn.task.leg.store
  | _ => True

/-- The invariant of isolated runs. -/
structure Replays (c : Console) : Prop where
  assets : c.app.session.isSome = c.app.assets.isSome
  given : ∀ turn, c.running = some turn → turn.task.given.Of turn.task.leg.store
  shell : ∀ turn, c.running = some turn → turn.shell = turn.task.isShell
  busy : ∀ turn, c.running = some turn → turn.task.isShell →
    c.app.busy = true ∧ c.app.assets = some turn.task.leg.store

/-! ## Keys, hops, commands and turns -/

/-- What a key, a hop, a command or a turn can do to the history. -/
inductive Moves (c c' : Console) : Prop
  /-- it stays, with the task in flight -/
  | kept (hf : SameFlight c c') (hc : SameContext c.app c'.app)
      (hb : c.app.busy = true → c'.app.busy = true)
  /-- a hop drops it, and leaves the task in flight -/
  | hopped (hb : c.app.busy = false) (hr : c'.running = c.running) (hn : c'.history = .new)
      (ha : c'.app.session.isSome = c'.app.assets.isSome)
  /-- it moves into a task that is spawned on a leg of the open entry -/
  | spawned (task : Task) (hg : task.given = c.history) (hl : some task.leg.store = c.app.assets)
      (hr : c'.running = some ⟨task, task.isShell, false⟩) (hn : c'.history = .new)
      (hc : SameContext c.app c'.app) (hb : task.isShell → c'.app.busy = true)

theorem Effect.moves {c c' : Console} (ha : c.app.session.isSome = c.app.assets.isSome)
    (h : Effect c c') : Moves c c' := by
  cases h with
  | quiet hq hf hs => exact .kept hf hq.context fun hb => hq.shell.busy.trans hb
  | missing hm => exact absurd hm (not_missing ha)
  | completed hb hf hs hc _ _ _ _ _ => exact .kept hf hc fun hb' => absurd (hb.symm.trans hb') (by simp)
  | hopped hb hr hn hs ha' _ _ _ => exact .hopped hb hr hn ha'
  | spawned hb line leg signal hl hr hn hs hc hb' _ _ =>
    exact .spawned (.shell line leg signal c.history) rfl hl hr hn hc fun _ => hb'

theorem Submitted.moves {answers : Answers} {c c' : Console}
    (ha : c.app.session.isSome = c.app.assets.isSome) (h : Submitted answers c c') : Moves c c' := by
  cases h with
  | unsent hp hq hf => exact .kept hf hq.context fun hb => hq.shell.busy.trans hb
  | missing hm => exact absurd hm (not_missing ha)
  | refused hp hg hb hf hc ht => exact .kept hf hc fun hb' => absurd (hb.symm.trans hb') (by simp)
  | spawned hp hg hb task htask hgiven hl hr hn hc ht =>
    refine .spawned task hgiven hl ?_ hn hc fun hs => ?_
    · rw [htask]
      exact hr
    · simp [htask] at hs

theorem Moves.replays {c c' : Console} (hi : Replays c) (hp : Isolated c) (h : Moves c c') :
    Replays c' := by
  cases h with
  | kept hf hc hb =>
    refine ⟨?_, ?_, ?_, ?_⟩
    · exact hc.inventory hi.assets
    · intro turn hr
      exact hi.given turn (hf.running ▸ hr)
    · intro turn hr
      exact hi.shell turn (hf.running ▸ hr)
    · intro turn hr hs
      obtain ⟨hbusy, ha⟩ := hi.busy turn (hf.running ▸ hr) hs
      exact ⟨hb hbusy, hc.assets.trans ha⟩
  | hopped hb hr hn ha =>
    refine ⟨ha, ?_, ?_, ?_⟩
    · intro turn ht
      exact hi.given turn (hr ▸ ht)
    · intro turn ht
      exact hi.shell turn (hr ▸ ht)
    · intro turn ht hs
      exact absurd (hb.symm.trans (hi.busy turn (hr ▸ ht) hs).1) (by simp)
  | spawned task hg hl hr hn hc hb =>
    refine ⟨hc.inventory hi.assets, fun turn ht => ?_, fun turn ht => ?_,
      fun turn ht hs => ?_⟩
    all_goals obtain rfl := Option.some.inj (hr.symm.trans ht)
    · show task.given.Of task.leg.store
      rw [hg]
      exact hp _ hl.symm
    · rfl
    · exact ⟨hb hs, hc.assets.trans hl.symm⟩

theorem Moves.isolated {c c' : Console} (hp : Isolated c) (h : Moves c c') : Isolated c' := by
  cases h with
  | kept hf hc hb =>
    intro store ha
    rw [hf.history]
    exact hp store (hc.assets ▸ ha)
  | hopped hb hr hn ha => exact fun store _ => hn ▸ History.of_new store
  | spawned task hg hl hr hn hc hb => exact fun store _ => hn ▸ History.of_new store

/-! ## Events and joins -/

theorem replays_receive {c : Console} (hi : Replays c) {event : SessionEvent}
    (ha : Admits c (.event event)) : Replays (receive c event) := by
  obtain ⟨turn, hr, -, hsends⟩ := ha
  have hc : SameContext c.app (receive c event).app := sameContext_onEvent c.app event
  have hr' : (receive c event).running =
      some { turn with reported := turn.reported || event.isLast } := by simp [receive, hr]
  refine ⟨hc.inventory hi.assets, fun turn' ht => ?_, fun turn' ht => ?_,
    fun turn' ht hs => ?_⟩
  all_goals obtain rfl := Option.some.inj (hr'.symm.trans ht)
  · exact hi.given turn hr
  · exact hi.shell turn hr
  · obtain ⟨hbusy, hassets⟩ := hi.busy turn hr hs
    refine ⟨?_, hc.assets.trans hassets⟩
    -- a script sends nothing but its report, which leaves the console busy
    cases htask : turn.task with
    | shell line leg signal previous =>
      rw [htask] at hsends
      cases event with
      | shellFinished entry => exact (busy_modifyPending c.app _).trans hbusy
      | _ => exact hsends.elim
    | turn prompt leg signal instructions agent options history => simp [htask, Task.isShell] at hs

theorem isolated_receive {c : Console} (hp : Isolated c) (event : SessionEvent) :
    Isolated (receive c event) := by
  intro store ha
  exact hp store ((sameContext_onEvent c.app event).assets ▸ ha)

theorem replays_finishTurn {c : Console} (hi : Replays c) (joined : Joined) :
    Replays (finishTurn exts joined c) := by
  unfold finishTurn
  cases hr : c.running with
  | none => exact hi
  | some turn =>
    have hc := (sameContext_settleTurn exts turn.shell joined { c with running := none }).app
    have hnone : (settleTurn exts turn.shell joined { c with running := none }).running = none := by
      rw [settleTurn_eq]
    refine ⟨?_, fun turn' ht => ?_, fun turn' ht => ?_, fun turn' ht => ?_⟩
    · exact hc.inventory hi.assets
    all_goals
      rw [hnone] at ht
      cases ht

/-- **A join keeps the history isolated exactly if its turn rejoins its entry.** -/
theorem isolated_finishTurn_iff {c : Console} (hi : Replays c) (hp : Isolated c) {joined : Joined}
    (ha : Replaying c (.close joined)) :
    Isolated (finishTurn exts joined c) ↔ Rejoins c (.close joined) := by
  obtain ⟨turn, hr, hextends⟩ := ha
  have hassets : (finishTurn exts joined c).app.assets = c.app.assets := by
    simp only [finishTurn, hr]
    exact (sameContext_settleTurn exts turn.shell joined { c with running := none }).app.assets
  have hhistory : (finishTurn exts joined c).history = joinedHistory joined c.history := by
    simp only [finishTurn, hr, settleTurn_eq]
  unfold Isolated
  rw [hassets, hhistory]
  cases joined with
  | failed error => exact iff_of_true hp trivial
  | died error => exact iff_of_true hp trivial
  | returned history =>
    have hext := hextends history rfl
    have hgiven := hi.given turn hr
    cases htask : turn.task with
    | shell line leg signal previous =>
      -- a command keeps its entry open, and hands back what it was given
      have hshell : turn.task.isShell = true := by rw [htask]; rfl
      rw [htask] at hext hgiven
      obtain rfl : history = previous := hext
      refine iff_of_true ?_ ?_
      · intro store hstore
        have := (hi.busy turn hr hshell).2.symm.trans hstore
        rw [htask] at this
        exact Option.some.inj this ▸ hgiven
      · intro turn' ht hs
        obtain rfl := Option.some.inj (hr.symm.trans ht)
        rw [hi.shell turn hr, hshell] at hs
        cases hs
    | turn prompt leg signal instructions agent options given =>
      rw [htask] at hext hgiven
      obtain ⟨x, hx, hexchanges⟩ := hext
      constructor
      · intro h turn' ht _
        obtain rfl := Option.some.inj (hr.symm.trans ht)
        cases hstore : c.app.assets with
        | none => exact Or.inl rfl
        | some store =>
          have := h store hstore x (by simp [joinedHistory, hexchanges])
          right
          rw [htask, ← this, hx]
          rfl
      · intro h store hstore
        have hturn : turn.shell = false := by
          rw [hi.shell turn hr, htask]
          rfl
        rcases h turn hr hturn with hnone | hsome
        · simp [hnone] at hstore
        · rw [hstore, htask] at hsome
          obtain rfl : store = leg.store := Option.some.inj hsome
          intro y hy
          rw [joinedHistory, hexchanges] at hy
          rcases List.mem_append.1 hy with hy | hy
          · exact hgiven y hy
          · rw [List.mem_singleton.1 hy, hx]

/-! ## Every run -/

/-- A pass moves the history, or takes an event or a join of the task in flight. -/
theorem moves_step (exts : Externals) {c : Console} (hi : Replays c) {l : Label} (hl : Replaying c l) :
    Moves c (step exts c l) ∨ (∃ event, l = .event event) ∨ ∃ joined, l = .close joined := by
  cases l with
  | key key answers => exact Or.inl ((effect_key exts key answers c).moves hi.assets)
  | action action answers =>
    cases action with
    | enter => exact Or.inl ((effect_enter exts answers c).moves hi.assets)
    | shell line => exact Or.inl ((effect_shell exts answers c line).moves hi.assets)
    | turn prompt => exact hl.elim
  | submitTurn answers => exact Or.inl ((submitted_submitTurn exts answers c).moves hi.assets)
  | event event => exact Or.inr (Or.inl ⟨event, rfl⟩)
  | close joined => exact Or.inr (Or.inr ⟨joined, rfl⟩)
  | intake intake => exact Or.inl ((effect_intake exts hl intake).moves hi.assets)
  | resize width height => exact Or.inl ((effect_resize exts c width height).moves hi.assets)

theorem replays_step {c : Console} {l : Label} (hl : Replaying c l) (hp : Isolated c)
    (hi : Replays c) : Replays (step exts c l) := by
  rcases moves_step exts hi hl with hm | ⟨event, rfl⟩ | ⟨joined, rfl⟩
  · exact hm.replays hi hp
  · exact replays_receive hi hl
  · exact replays_finishTurn hi joined

theorem isolated_step_iff {c : Console} {l : Label} (hl : Replaying c l) (hp : Isolated c)
    (hi : Replays c) : Isolated (step exts c l) ↔ Rejoins c l := by
  cases l with
  | event event => exact iff_of_true (isolated_receive hp event) trivial
  | close joined => exact isolated_finishTurn_iff hi hp hl
  | _ =>
    refine iff_of_true ?_ trivial
    rcases moves_step exts hi hl with hm | ⟨event, h⟩ | ⟨joined, h⟩
    · exact hm.isolated hp
    · cases h
    · cases h

/-- **Replay isolation.**  From any console without an open entry, a run keeps
    the live history to the open entry's exchanges exactly if every turn that
    hands its history back finds its own entry open, or none. -/
theorem isolated_iff_rejoins (app : App) (options : ConsoleOptions) (ls : List Label)
    (hsession : app.session = none) (hassets : app.assets = none)
    (hls : Runs.Steps (step exts) Replaying (Console.start app options) ls) :
    Runs.Always (step exts) Isolated (Console.start app options) ls ↔
      Runs.Steps (step exts) Rejoins (Console.start app options) ls := by
  refine Runs.always_iff_steps (P := Isolated) (I := Replays)
    (fun _ _ hl hp hi _ => replays_step hl hp hi) (fun _ _ hl hp hi => isolated_step_iff hl hp hi)
    ?_ ?_ hls
  · refine ⟨?_, (fun _ h => by cases h), (fun _ h => by cases h), (fun _ h => by cases h)⟩
    simp [Console.start, hsession, hassets]
  · exact fun store _ => History.of_new store

namespace Sample

/-- A turn in `ops`, up to its last event. -/
def turn : List Label :=
  [.key ⟨.enter, .none⟩ answers, .key ⟨.char 'h', .none⟩ answers, .submitTurn answers,
    .event (.finished (.error "model refused"))]

/-- The channel of the turn closes: it hands back an exchange of its own. -/
def joinTurn : Label := .close (.returned ⟨[⟨"h", "hello", 0⟩]⟩)

/-- The cursor moves to `dev`, and hops there. -/
def hop : List Label :=
  [.backTab, .char 'j', .enter].map fun code => .key ⟨code, .none⟩ answers

end Sample

/-- The turn is joined before the hop. -/
theorem isolated_iff_rejoins_sample :
    Runs.Always (step .plain) Isolated (Console.start Sample.app Sample.options)
      (Sample.turn ++ Sample.joinTurn :: Sample.hop) := by
  refine (isolated_iff_rejoins Sample.app Sample.options _ rfl rfl ?_).2 ?_
  · refine ⟨trivial, trivial, trivial, ⟨_, rfl, rfl, trivial⟩, ⟨_, rfl, ?_⟩, trivial, trivial,
      trivial, trivial⟩
    intro history h
    obtain rfl := Joined.returned.inj h
    exact ⟨⟨"h", "hello", 0⟩, rfl, rfl⟩
  · refine ⟨trivial, trivial, trivial, trivial, fun turn hr _ => Or.inr ?_, trivial, trivial,
      trivial, trivial⟩
    obtain rfl := Option.some.inj hr
    rfl

/-- The hop slips between the turn's last event and its join, which then writes
    the exchange of `ops` back into the history of `dev`. -/
theorem exchange_outlives_entry :
    Runs.Steps (step .plain) Replaying (Console.start Sample.app Sample.options)
        (Sample.turn ++ Sample.hop ++ [Sample.joinTurn]) ∧
      ¬Runs.Always (step .plain) Isolated (Console.start Sample.app Sample.options)
        (Sample.turn ++ Sample.hop ++ [Sample.joinTurn]) := by
  constructor
  · refine ⟨trivial, trivial, trivial, ⟨_, rfl, rfl, trivial⟩, trivial, trivial, trivial,
      ⟨_, rfl, ?_⟩, trivial⟩
    intro history h
    obtain rfl := Joined.returned.inj h
    exact ⟨⟨"h", "hello", 0⟩, rfl, rfl⟩
  · intro h
    have := h.last 1 rfl ⟨"h", "hello", 0⟩ (List.mem_singleton.2 rfl)
    cases this

end DekoponConsole
