/-
  What pressing Enter makes of the line in the composer.

  * `LocallyRefused` says which lines the dispatcher refuses by itself;
  * `dispatchShell_refused` and `dispatchShell_echoed`: such a line is asked for
    nowhere and leaves no entry, every other one is echoed;
  * `Echoes`: an entry stands for a line, under its own text or under the label of
    an asset command;
  * `keepsTyped_iff`: Enter keeps the composer of a refused submission exactly if
    the line it accepts is none that the dispatcher refuses.
-/
import DekoponConsole.Proof.Flight
import DekoponConsole.Proof.Startup

namespace DekoponConsole

open App

/-! ## Lines -/

/-- The lines the dispatcher refuses by itself: a synthetic turn that is not
    allowed or not quoted, an asset command without an inventory, and local
    commands it does not know. -/
def LocallyRefused (c : Console) (line : String) : Prop :=
  (startsWith line ":smoke" ∧
      ¬(c.options.smokeConversation ∧ ∃ text, line = ":smoke record '" ++ text ++ "'")) ∨
    (startsWith line ":asset" ∧ ¬(c.app.assets.isSome ∧ startsWith line ":asset "))

/-- An entry stands for a line. -/
def Echoes (line : String) (entry : ShellEntry) : Prop :=
  entry.input = line ∨ (startsWith line ":asset " ∧ entry.input = assetLabel)

/-- A refused submission leaves the composer, and only a line that was echoed is
    taken out of it. -/
structure KeepsTyped (c : Console) (d : Dispatched) : Prop where
  refused : d.1.app.shellHistory = c.app.shellHistory → d.2 = [] →
    d.1.app.composer = c.app.composer
  cleared : d.1.app.composer ≠ c.app.composer → ∃ entry, Echoes (trim c.app.composer) entry ∧
    d.1.app.shellHistory = c.app.shellHistory ++ [entry]

theorem startsWith_trans {line pat rest : String} (h : startsWith line (pat ++ rest) = true) :
    startsWith line pat = true := by
  obtain ⟨tail, rfl⟩ := startsWith_iff_exists.1 h
  exact startsWith_iff_exists.2 ⟨rest ++ tail, String.append_assoc⟩

theorem stripPrefix_append_none {line pat : String} (rest : String)
    (h : startsWith line pat = false) : stripPrefix line (pat ++ rest) = none := by
  by_contra hsome
  obtain ⟨tail, htail⟩ := Option.ne_none_iff_exists'.1 hsome
  have := startsWith_trans (startsWith_iff_exists.2 ⟨tail, stripPrefix_eq_some.1 htail⟩)
  simp [h] at this

/-- A line of one local command is none of the other. -/
theorem not_smoke_asset {line : String} (hs : startsWith line ":smoke" = true)
    (ha : startsWith line ":asset" = true) : False := by
  obtain ⟨rest, rfl⟩ := startsWith_iff_exists.1 hs
  simp [startsWith] at ha

/-- The text of a synthetic turn stands between quotes. -/
theorem quoted_iff {text quoted : String} :
    ((stripPrefix text "'").bind fun s => stripSuffix s "'") = some quoted ↔
      text = "'" ++ quoted ++ "'" := by
  rw [Option.bind_eq_some_iff]
  simp only [stripPrefix_eq_some, stripSuffix_eq_some]
  constructor
  · rintro ⟨s, rfl, rfl⟩
    exact String.append_assoc.symm
  · rintro rfl
    exact ⟨_, String.append_assoc, rfl⟩

/-- A quoted synthetic turn, after the name of its command. -/
theorem record_quoted (text : String) :
    ":smoke record '" ++ text ++ "'" = ":smoke record " ++ ("'" ++ text ++ "'") :=
  String.toList_injective (by simp)

/-! ## What the dispatcher makes of a line -/

section
variable (exts : Externals) (answers : Answers) {c : Console} {session : AgentSession}
  {line : String}

theorem dispatchSmoke_refused (line : String) {text : String} (agent : AgentId)
    (h : ¬(c.options.smokeConversation ∧ ∃ quoted, text = "'" ++ quoted ++ "'")) :
    ∃ notice, dispatchSmoke exts answers c agent line text = (c.refuse notice, []) := by
  unfold dispatchSmoke
  by_cases hsmoke : c.options.smokeConversation
  · rw [if_neg (by simp [hsmoke])]
    cases hq : (stripPrefix text "'").bind fun s => stripSuffix s "'" with
    | none => exact ⟨_, rfl⟩
    | some quoted => exact absurd ⟨hsmoke, quoted, quoted_iff.1 hq⟩ h
  · rw [if_pos (by simpa using hsmoke)]
    exact ⟨_, rfl⟩

/-- A line refused by the dispatcher leaves everything but the notice. -/
theorem dispatchShell_refused (hs : c.app.session = some session) (hb : c.app.busy = false)
    (h : LocallyRefused c line) : ∃ app, dispatchShell exts answers c line =
      ({ c with app := app }, []) ∧ app.shellHistory = c.app.shellHistory ∧
        app.composer = c.app.composer := by
  have hrefuse (notice : String) : ∃ app, (c.refuse notice, ([] : List BrokerCall)) =
      ({ c with app := app }, []) ∧ app.shellHistory = c.app.shellHistory ∧
        app.composer = c.app.composer := ⟨_, rfl, rfl, rfl⟩
  unfold dispatchShell
  rw [hs]
  simp only [hb, Bool.false_eq_true, if_false]
  rcases h with ⟨hsmoke, hbad⟩ | ⟨hasset, hbad⟩
  · cases hrecord : stripPrefix line ":smoke record " with
    | none =>
      simp only [hsmoke, if_true]
      exact hrefuse _
    | some text =>
      obtain rfl := stripPrefix_eq_some.1 hrecord
      have hunquoted : ¬(c.options.smokeConversation ∧ ∃ quoted, text = "'" ++ quoted ++ "'") := by
        rintro ⟨hallowed, quoted, rfl⟩
        exact hbad ⟨hallowed, quoted, (record_quoted quoted).symm⟩
      obtain ⟨notice, hn⟩ :=
        dispatchSmoke_refused exts answers (":smoke record " ++ text) session.agent hunquoted
      show ∃ app, dispatchSmoke exts answers c session.agent (":smoke record " ++ text) text = _ ∧ _
      rw [hn]
      exact hrefuse notice
  · have hnot : startsWith line ":smoke" = false := by
      by_contra hsmoke
      exact not_smoke_asset (by simpa using hsmoke) hasset
    have hrecord : stripPrefix line ":smoke record " = none :=
      stripPrefix_append_none " record " hnot
    simp only [hrecord, hnot, Bool.false_eq_true, if_false]
    cases hcommand : stripPrefix line ":asset " with
    | none =>
      simp only [hasset, if_true]
      exact hrefuse _
    | some command =>
      have hnone : c.app.assets = none := by
        by_contra hsome
        exact hbad ⟨Option.isSome_iff_ne_none.2 hsome,
          startsWith_iff_exists.2 ⟨command, stripPrefix_eq_some.1 hcommand⟩⟩
      simp only [dispatchAsset, hnone]
      exact ⟨_, rfl, rfl, rfl⟩

theorem shellHistory_completeLocally (c : Console) (input output : String) (exitCode : ℕ) :
    (completeLocally c input output exitCode).app.shellHistory =
      c.app.shellHistory ++ [⟨input, output, some exitCode, false⟩] := by
  rw [completeLocally_eq]

theorem dispatchScript_echoed (c : Console) (agent : AgentId) (line : String) :
    ∃ entry, entry.input = line ∧ (dispatchScript exts answers c agent line).1.app.shellHistory =
      c.app.shellHistory ++ [entry] := by
  have hfailed (report : ErrorReport) : ∃ entry, entry.input = line ∧
      ((c.app.startShell line).failShell exts report).shellHistory =
        c.app.shellHistory ++ [entry] :=
    ⟨_, rfl, (pending_startShell c.app line).shellHistory_failShell report⟩
  unfold dispatchScript openAgentWithAssets
  dsimp only
  split
  · exact ⟨_, rfl, rfl⟩
  · cases answers.leg with
    | error error => exact hfailed _
    | ok surface =>
      simp only
      split_ifs
      · exact hfailed _
      · exact ⟨_, rfl, rfl⟩

theorem dispatchSmoke_echoed (agent : AgentId) (line : String) {text quoted : String}
    (hallowed : c.options.smokeConversation) (htext : text = "'" ++ quoted ++ "'") :
    ∃ entry, entry.input = line ∧
      (dispatchSmoke exts answers c agent line text).1.app.shellHistory =
        c.app.shellHistory ++ [entry] := by
  unfold dispatchSmoke
  rw [if_neg (by simp [hallowed]), quoted_iff.2 htext]
  simp only
  split_ifs
  · simp only [smokeRecord]
    cases answers.record with
    | ok result => exact ⟨_, rfl, shellHistory_completeLocally _ _ _ _⟩
    | error error => exact ⟨_, rfl, shellHistory_completeLocally _ _ _ _⟩
  · exact ⟨_, rfl, shellHistory_completeLocally _ _ _ _⟩

/-- An asset command is echoed under its label. -/
theorem dispatchAsset_echoed (command : String) (ha : c.app.assets.isSome) :
    ∃ entry, entry.input = assetLabel ∧
      (dispatchAsset exts answers c command).1.app.shellHistory =
        c.app.shellHistory ++ [entry] := by
  obtain ⟨store, hstore⟩ := Option.isSome_iff_exists.1 ha
  unfold dispatchAsset
  rw [hstore]
  dsimp only
  split
  · exact ⟨_, rfl, shellHistory_completeLocally _ _ _ _⟩
  · exact ⟨_, rfl, shellHistory_completeLocally _ _ _ _⟩

/-- A line that is no local command is a script. -/
theorem dispatchShell_script (hs : c.app.session = some session) (hb : c.app.busy = false)
    (hsmoke : startsWith line ":smoke" = false) (hasset : startsWith line ":asset" = false) :
    dispatchShell exts answers c line = dispatchScript exts answers c session.agent line := by
  have hrecord : stripPrefix line ":smoke record " = none :=
    stripPrefix_append_none " record " hsmoke
  have hcommand : stripPrefix line ":asset " = none := stripPrefix_append_none " " hasset
  unfold dispatchShell
  simp only [hs, hb, hrecord, hsmoke, hcommand, hasset, Bool.false_eq_true, if_false]

/-- A line the dispatcher does not refuse is echoed. -/
theorem dispatchShell_echoed (hs : c.app.session = some session) (hb : c.app.busy = false)
    (h : ¬LocallyRefused c line) : ∃ entry, Echoes line entry ∧
      (dispatchShell exts answers c line).1.app.shellHistory = c.app.shellHistory ++ [entry] := by
  cases hsmoke : startsWith line ":smoke" with
  | true =>
    obtain ⟨hallowed, quoted, rfl⟩ : c.options.smokeConversation ∧
        ∃ text, line = ":smoke record '" ++ text ++ "'" := by
      by_contra hbad
      exact h (Or.inl ⟨hsmoke, hbad⟩)
    have hrecord := stripPrefix_eq_some.2 (record_quoted quoted)
    obtain ⟨entry, hinput, hh⟩ := dispatchSmoke_echoed exts answers session.agent
      (":smoke record '" ++ quoted ++ "'") hallowed rfl
    unfold dispatchShell
    simp only [hs, hb, hrecord, Bool.false_eq_true, if_false]
    exact ⟨entry, Or.inl hinput, hh⟩
  | false =>
    cases hasset : startsWith line ":asset" with
    | true =>
      obtain ⟨hstore, hstarts⟩ : c.app.assets.isSome ∧ startsWith line ":asset " := by
        by_contra hbad
        exact h (Or.inr ⟨hasset, hbad⟩)
      obtain ⟨command, hline⟩ := startsWith_iff_exists.1 hstarts
      have hrecord : stripPrefix line ":smoke record " = none :=
        stripPrefix_append_none " record " hsmoke
      have hcommand := stripPrefix_eq_some.2 hline
      obtain ⟨entry, hinput, hh⟩ := dispatchAsset_echoed exts answers command hstore
      unfold dispatchShell
      simp only [hs, hb, hrecord, hsmoke, hcommand, Bool.false_eq_true, if_false]
      exact ⟨entry, Or.inr ⟨hstarts, hinput⟩, hh⟩
    | false =>
      obtain ⟨entry, hinput, hh⟩ := dispatchScript_echoed exts answers c session.agent line
      rw [dispatchShell_script exts answers hs hb hsmoke hasset]
      exact ⟨entry, Or.inl hinput, hh⟩

end

/-! ## Pressing Enter -/

theorem LocallyRefused.ne_empty {c : Console} {line : String} (h : LocallyRefused c line) :
    line ≠ "" := by
  rintro rfl
  rcases h with ⟨h, -⟩ | ⟨h, -⟩ <;> cases h

/-- The key handler accepts a line in an idle session, unless it is blank, and takes
    it out of the composer; otherwise it leaves the composer. -/
theorem onComposingEnter_cases {app : App} (hpane : app.pane = .shell) (stop : StopFlag) :
    (¬(app.busy = false ∧ app.session.isSome ∧ trim app.composer ≠ "") ∧
        ∃ app', onComposingEnter app stop = (none, app', stop) ∧ app'.composer = app.composer) ∨
      ((app.busy = false ∧ app.session.isSome ∧ trim app.composer ≠ "") ∧
        onComposingEnter app stop = (some (.shell (trim app.composer)),
          { app with composer := "", shellTop := none }, stop)) := by
  unfold onComposingEnter
  simp only [hpane]
  by_cases hb : app.busy
  · exact Or.inl ⟨by simp [hb], _, if_pos hb, rfl⟩
  rw [if_neg hb]
  by_cases hs : app.session.isNone
  · exact Or.inl ⟨by simp [Option.isNone_iff_eq_none.1 hs], _, if_pos hs, rfl⟩
  rw [if_neg hs]
  by_cases hempty : (trim app.composer).isEmpty
  · exact Or.inl ⟨by simp [String.isEmpty_iff.1 hempty], _, if_pos hempty, rfl⟩
  · refine Or.inr ⟨⟨by simpa using hb, ?_, by simpa using hempty⟩, if_neg hempty⟩
    rw [Option.isSome_iff_ne_none]
    simpa using hs

/-- Enter in the shell pane, while composing. -/
theorem onKey_enter (exts : Externals) {app : App} (hmode : app.mode = .composing)
    (hpane : app.pane = .shell) (modifiers : KeyModifiers) (stop : StopFlag) :
    onKey exts app ⟨.enter, modifiers⟩ stop = onComposingEnter app stop := by
  simp [onKey, hmode, onPagingKey, hpane, onComposingKey]

/-- **Exactly when Enter keeps what was typed.**  In the shell pane Enter leaves the
    composer of a refused submission, and takes out of it only a line that was
    echoed, if and only if it does not accept a line that the dispatcher refuses. -/
theorem keepsTyped_iff (exts : Externals) (c : Console) (modifiers : KeyModifiers)
    (answers : Answers) (hmode : c.app.mode = .composing) (hpane : c.app.pane = .shell) :
    KeepsTyped c (react exts c (.key ⟨.enter, modifiers⟩ answers)) ↔
      ¬(c.app.busy = false ∧ c.app.session.isSome ∧ LocallyRefused c (trim c.app.composer)) := by
  have hkey := onKey_enter exts hmode hpane modifiers c.stop
  rcases onComposingEnter_cases hpane c.stop with
    ⟨hnot, app, henter, hcomposer⟩ | ⟨⟨hb, hs, hne⟩, henter⟩
  · simp only [react, hkey, henter]
    refine iff_of_true ⟨fun _ _ => hcomposer, fun h => absurd hcomposer h⟩ ?_
    rintro ⟨hb, hs, hrefused⟩
    exact hnot ⟨hb, hs, hrefused.ne_empty⟩
  obtain ⟨session, hs⟩ := Option.isSome_iff_exists.1 hs
  simp only [react, hkey, henter, dispatch]
  -- the dispatcher meets the console with the line taken out of the composer
  set taken : Console := { c with app := { c.app with composer := "", shellTop := none } }
    with htaken
  by_cases hrefused : LocallyRefused c (trim c.app.composer)
  · obtain ⟨app, hd, hh, hcomposer⟩ :=
      dispatchShell_refused exts answers (c := taken) hs hb hrefused
    rw [hd]
    refine iff_of_false (fun hkeeps => hne ?_) fun hn => hn ⟨hb, by simp [hs], hrefused⟩
    have hsame : app.composer = c.app.composer := hkeeps.refused hh rfl
    rw [← hsame, hcomposer]
    rfl
  · obtain ⟨entry, hechoes, hh⟩ :=
      dispatchShell_echoed exts answers (c := taken) hs hb hrefused
    refine iff_of_true ⟨fun hsame => ?_, fun _ => ⟨entry, hechoes, hh⟩⟩ fun h => hrefused h.2.2
    have hlength := congrArg List.length (hh.symm.trans hsame)
    simp [htaken] at hlength

namespace Sample

/-- A hop into `ops`, and a line typed there. -/
def composing (line : List Char) : Console :=
  Runs.exec (step .plain) (Console.start app options)
    (.key ⟨.enter, .none⟩ answers :: line.map fun c => .key ⟨.char c, .none⟩ answers)

end Sample

theorem keepsTyped_iff_script :
    KeepsTyped (Sample.composing ['l', 's'])
      (react .plain (Sample.composing ['l', 's']) (.key ⟨.enter, .none⟩ Sample.answers)) := by
  have hcomposer : trim (Sample.composing ['l', 's']).app.composer = "ls" := by decide
  refine (keepsTyped_iff .plain _ .none Sample.answers (by decide) (by decide)).2 ?_
  rintro ⟨-, -, hrefused⟩
  rw [hcomposer] at hrefused
  rcases hrefused with ⟨h, -⟩ | ⟨h, -⟩
  · exact absurd h (by decide)
  · exact absurd h (by decide)

/-- An incomplete local command is taken out of the composer, though it is refused. -/
theorem refused_line_eaten :
    (Sample.composing [':', 's', 'm', 'o', 'k', 'e']).app.mode = .composing ∧
      (Sample.composing [':', 's', 'm', 'o', 'k', 'e']).app.pane = .shell ∧
      (Sample.composing [':', 's', 'm', 'o', 'k', 'e']).app.composer = ":smoke" ∧
      ¬KeepsTyped (Sample.composing [':', 's', 'm', 'o', 'k', 'e'])
        (react .plain (Sample.composing [':', 's', 'm', 'o', 'k', 'e'])
          (.key ⟨.enter, .none⟩ Sample.answers)) := by
  have hhistory : (react .plain (Sample.composing [':', 's', 'm', 'o', 'k', 'e'])
      (.key ⟨.enter, .none⟩ Sample.answers)).1.app.shellHistory =
        (Sample.composing [':', 's', 'm', 'o', 'k', 'e']).app.shellHistory := by decide
  refine ⟨by decide, by decide, by decide, fun hkeeps => ?_⟩
  have hsame := hkeeps.refused hhistory (by decide)
  exact absurd hsame (by decide)

end DekoponConsole
