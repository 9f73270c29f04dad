/-
  No borrowed text reaches the frame unsanitised, the credential apart.

  * `CleanText` texts hold no control character and none of the directional characters
    that `sanitize` replaces;
  * `clean_sanitizeLine`: sanitised lines are clean;
  * `status_clean_iff`, `detail_clean_iff` are about the widgets that are given text
    as it is;
  * `draw_clean_iff`: a frame is clean exactly if the credential's file name is and,
    in the capabilities pane, the effects and risks of what is granted are.
-/
import DekoponConsole.Draw
import DekoponConsole.Proof.Sanitize
import DekoponConsole.Proof.Startup

namespace DekoponConsole

/-! ## Clean text -/

/-- No character of the text is a control or a directional character. -/
def CleanText (text : String) : Prop := ∀ c ∈ text.toList, Harmless c

instance : DecidablePred CleanText := fun text =>
  decidable_of_iff (text.toList.all fun c => !isControl c && !isBidiControl c)
    (by simp [CleanText, Harmless])

/-- Every text of the widget is clean. -/
def Widget.Clean (w : Widget) : Prop := ∀ text ∈ w.fragments, CleanText text

@[simp] theorem clean_append (s t : String) : CleanText (s ++ t) ↔ CleanText s ∧ CleanText t := by
  simp [CleanText, or_imp, forall_and]

/-- **Sanitised lines are clean.** -/
theorem clean_sanitizeLine (text : String) : CleanText (sanitizeLine text) := by
  intro c hc
  exact harmless_of_mem_sanitizeLine hc

theorem clean_repr (n : ℕ) : CleanText n.repr := by
  intro c hc
  rw [Nat.toList_repr] at hc
  have hdigit := Nat.isDigit_of_mem_toDigits (by omega) (by omega) hc
  simp only [Char.isDigit, Bool.and_eq_true, decide_eq_true_eq] at hdigit
  have h₁ : 48 ≤ c.toNat := hdigit.1
  have h₂ : c.toNat ≤ 57 := hdigit.2
  constructor
  · simp only [isControl, Bool.or_eq_false_iff, Bool.and_eq_false_iff, decide_eq_false_iff_not]
    omega
  · simp only [isBidiControl, Bool.or_eq_false_iff, Bool.and_eq_false_iff, decide_eq_false_iff_not,
      beq_eq_false_iff_ne]
    omega

theorem clean_widget {w : Widget} :
    w.Clean ↔ (∀ text ∈ w.titles, CleanText text) ∧
      ∀ line ∈ w.lines, ∀ text ∈ line, CleanText text := by
  simp only [Widget.Clean, Widget.fragments, List.mem_append, List.mem_flatten]
  constructor
  · intro h
    exact ⟨fun text ht => h text (Or.inl ht), fun line hl text ht => h text (Or.inr ⟨line, hl, ht⟩)⟩
  · rintro ⟨htitles, hlines⟩ text (ht | ⟨line, hl, ht⟩)
    · exact htitles text ht
    · exact hlines line hl text ht

/-! ## The frame around the panes -/

section
variable (app : App)

theorem header_clean (uid : ℕ) : ∀ w ∈ Chrome.drawHeader app uid, w.Clean := by
  intro w hw
  obtain ⟨label, -, rfl⟩ := List.mem_map.1 hw
  simp [clean_widget, Widget.paragraph, clean_sanitizeLine]

theorem tabs_clean : (Chrome.drawTabs app).Clean := by
  have htexts : (∀ pane ∈ Pane.order, CleanText (" " ++ pane.title ++ " ")) ∧ CleanText " " ∧
      CleanText "· running" := by decide
  obtain ⟨hpanes, hgap, hrunning⟩ := htexts
  rw [clean_widget]
  refine ⟨fun _ h => absurd h List.not_mem_nil, ?_⟩
  intro line hl text ht
  rw [List.mem_singleton.1 hl] at ht
  rcases List.mem_append.1 ht with ht | ht
  · obtain ⟨pane, hpane, ht⟩ := List.mem_flatMap.1 ht
    rcases List.mem_pair.1 ht with rfl | rfl
    · exact hpanes pane hpane
    · exact hgap
  · split_ifs at ht
    · rwa [List.mem_singleton.1 ht]
    · cases ht

/-- The status lines show the credential's file name as it is. -/
theorem status_clean_iff {app : App} (hsubject : CleanText app.subject) :
    (∀ w ∈ Chrome.drawStatus app, w.Clean) ↔ CleanText (Chrome.credentialLabel app.credentialPath) := by
  have htexts : CleanText "? for keys" ∧ CleanText " · " := by decide
  cases hnotice : app.notice with
  | none => simp [Chrome.drawStatus, clean_widget, Widget.paragraph, hnotice, hsubject, htexts]
  | some notice =>
    simp [Chrome.drawStatus, clean_widget, Widget.paragraph, hnotice, hsubject, htexts,
      clean_sanitizeLine]

theorem help_clean : Chrome.drawHelp.Clean := by
  rw [clean_widget]
  decide +kernel

theorem error_clean : (Chrome.drawError app).Clean := by
  rw [clean_widget]
  constructor
  · show ∀ text ∈ [_, _], CleanText text
    decide +kernel
  · intro line hl text ht
    obtain ⟨source, -, rfl⟩ := List.mem_map.1 hl
    rw [List.mem_singleton.1 ht]
    exact clean_sanitizeLine source

end

/-! ## The panes -/

section
variable (app : App)

theorem agents_clean : (Agents.draw app).Clean := by
  rw [clean_widget]
  constructor
  · show ∀ text ∈ [" agents · enter to hop in "], CleanText text
    decide
  · intro line hl
    rcases List.mem_cons.1 hl with rfl | hl
    · decide
    · obtain ⟨agent, -, rfl⟩ := List.mem_map.1 hl
      have hmarks : CleanText "▸" ∧ CleanText " " ∧ CleanText "enabled" ∧ CleanText "disabled" ∧
          CleanText "-" := by decide
      obtain ⟨hhopped, hblank, henabled, hdisabled, hdash⟩ := hmarks
      intro text ht
      simp only [Agents.row, List.mem_cons, List.not_mem_nil, or_false] at ht
      rcases ht with rfl | rfl | rfl | rfl | rfl
      · split_ifs <;> assumption
      · exact clean_sanitizeLine _
      · split_ifs <;> assumption
      · cases agent.modelClass with
        | none => exact hdash
        | some modelClass => exact clean_sanitizeLine _
      · exact clean_sanitizeLine _

theorem entryLines_clean (entry : ShellEntry) :
    ∀ line ∈ Shell.entryLines entry, ∀ text ∈ line, CleanText text := by
  have htexts : CleanText "> " ∧ CleanText "[exit code: " ∧ CleanText "]" ∧
      CleanText "[output truncated by interpreter limits]" ∧
      CleanText "[running · Esc requests stop]" := by decide
  intro line hl
  unfold Shell.entryLines at hl
  rcases List.mem_cons.1 hl with rfl | hl
  · simp [htexts, clean_sanitizeLine]
  rcases List.mem_append.1 hl with hl | hl
  · split_ifs at hl
    · cases hl
    · obtain ⟨source, -, rfl⟩ := List.mem_map.1 hl
      simp [clean_sanitizeLine]
  · cases hcode : entry.exitCode with
    | none =>
      rw [hcode] at hl
      rw [List.mem_singleton.1 hl]
      simp [htexts]
    | some exit =>
      rw [hcode] at hl
      rcases List.mem_cons.1 hl with rfl | hl
      · simp [htexts, clean_repr]
      · split_ifs at hl
        · rw [List.mem_singleton.1 hl]
          simp [htexts]
        · cases hl

theorem shell_clean : (Shell.draw app).Clean := by
  have htexts : CleanText " type · Enter runs · Tab switches · Esc leaves input " ∧
      CleanText " i to type · ? for keys " ∧ CleanText "> " := by decide
  obtain ⟨hcomposing, hbrowsing, hprompt⟩ := htexts
  rw [clean_widget]
  constructor
  · intro text ht
    rcases List.mem_pair.1 ht with rfl | rfl
    · exact clean_sanitizeLine _
    · split_ifs
      · exact hcomposing
      · exact hbrowsing
  · intro line hl
    rcases List.mem_append.1 hl with hl | hl
    · obtain ⟨entry, -, hl⟩ := List.mem_flatMap.1 hl
      exact entryLines_clean entry line hl
    · rw [List.mem_singleton.1 hl]
      simp [hprompt, clean_sanitizeLine]

end

/-! ### The capabilities pane -/

section
variable {app : App} {session : AgentSession}

/-- The table shows effects and risks as they are. -/
theorem table_clean_iff (hagent : CleanText session.agent.asStr) :
    (Detail.table session).Clean ↔
      ∀ view ∈ session.effective, CleanText view.effect ∧ CleanText view.risk := by
  have htitle : CleanText " " ∧ CleanText " · " ∧ CleanText " granted " ∧
      CleanText " · policy grants this subject nothing here " := by decide
  have hheader : ∀ text ∈ ["CAPABILITY", "EFFECT", "RISK", "DESCRIPTION"], CleanText text := by decide
  rw [clean_widget]
  constructor
  · rintro ⟨-, hrows⟩ view hview
    have hrow := hrows (Detail.row view) (List.mem_cons_of_mem _ (List.mem_map_of_mem
      (List.mem_mergeSort.2 hview)))
    exact ⟨hrow _ (by simp [Detail.row]), hrow _ (by simp [Detail.row])⟩
  · intro h
    constructor
    · intro text ht
      rw [List.mem_singleton.1 ht]
      split_ifs
      · simp [htitle, hagent]
      · simp [htitle, hagent, clean_repr]
    · intro line hl
      rcases List.mem_cons.1 hl with rfl | hl
      · exact hheader
      · obtain ⟨view, hview, rfl⟩ := List.mem_map.1 hl
        obtain ⟨heffect, hrisk⟩ := h view (List.mem_mergeSort.1 hview)
        simp [Detail.row, clean_sanitizeLine, heffect, hrisk]

theorem helpLines_clean (session : AgentSession) :
    ∀ line ∈ Detail.helpLines session, ∀ text ∈ line, CleanText text := by
  have hnone : CleanText "the broker sent no help pages" := by decide
  intro line hl
  unfold Detail.helpLines at hl
  simp only at hl
  split_ifs at hl
  · rw [List.mem_singleton.1 hl]
    simp [hnone]
  · obtain ⟨page, -, hl⟩ := List.mem_flatMap.1 hl
    rcases List.mem_cons.1 hl with rfl | hl
    · simp [clean_sanitizeLine]
    · obtain ⟨source, -, rfl⟩ := List.mem_map.1 hl
      simp [clean_sanitizeLine]

theorem words_clean (htrace : ∀ trace, app.brokerTrace = some trace → CleanText trace)
    (session : AgentSession) : (Detail.words app session).Clean := by
  have htexts : CleanText "none" ∧ CleanText "broker trace: " ∧ CleanText "not opened" ∧
      CleanText " command words the bash tool will accept " := by decide
  have hopened : CleanText (app.brokerTrace.getD "not opened") := by
    cases h : app.brokerTrace with
    | none => exact htexts.2.2.1
    | some trace => exact htrace trace h
  rw [clean_widget]
  constructor
  · intro text ht
    rw [List.mem_singleton.1 ht]
    exact htexts.2.2.2
  · intro line hl text ht
    rcases List.mem_pair.1 hl with rfl | rfl
    · rw [List.mem_singleton.1 ht]
      split_ifs
      · exact htexts.1
      · exact clean_sanitizeLine _
    · rw [List.mem_singleton.1 ht, clean_append]
      exact ⟨htexts.2.1, hopened⟩

/-- The capabilities pane is clean exactly if the effects and risks of what is
    granted are. -/
theorem detail_clean_iff
    (hagent : ∀ session, app.session = some session → CleanText session.agent.asStr)
    (htrace : ∀ trace, app.brokerTrace = some trace → CleanText trace) :
    (∀ w ∈ Detail.draw app, w.Clean) ↔ ∀ session, app.session = some session →
      ∀ view ∈ session.effective, CleanText view.effect ∧ CleanText view.risk := by
  unfold Detail.draw
  cases hs : app.session with
  | none =>
    refine iff_of_true ?_ fun _ h => by cases h
    intro w hw
    rw [List.mem_singleton.1 hw, clean_widget]
    decide
  | some session =>
    have htitle : CleanText " command help " := by decide
    have hhelp : Widget.Clean ⟨[" command help "], Detail.helpLines session⟩ := by
      rw [clean_widget]
      exact ⟨by simpa using htitle, helpLines_clean session⟩
    have hwords := words_clean htrace session
    have htable := table_clean_iff (hagent session hs)
    simp [hhelp, hwords, htable]

end

/-! ## The frame -/

theorem clean_credentialLabel_iff {path : String} :
    CleanText (Chrome.credentialLabel path) ↔
      ∀ c ∈ path.toList.rtakeWhile (· != '/'), Harmless c := by
  simp [CleanText, Chrome.credentialLabel, split, Framing.getLast?_splitOn]

/-- **No borrowed text but the credential's.**  Where the subject, the agent and
    the trace are clean, as parsed, every text of a frame is clean exactly if what
    follows the last slash of the credential's path or endpoint is and, with the
    capabilities of a session on screen, their effects and risks are. -/
theorem draw_clean_iff (uid : ℕ) (app : App) (hsubject : CleanText app.subject)
    (hagent : ∀ session, app.session = some session → CleanText session.agent.asStr)
    (htrace : ∀ trace, app.brokerTrace = some trace → CleanText trace) :
    (∀ w ∈ draw uid app, ∀ text ∈ w.fragments, CleanText text) ↔
      (∀ c ∈ app.credentialPath.toList.rtakeWhile (· != '/'), Harmless c) ∧
      (app.pane = .detail → ∀ session, app.session = some session →
        ∀ view ∈ session.effective, CleanText view.effect ∧ CleanText view.risk) := by
  have hdetail := detail_clean_iff hagent htrace
  rw [← clean_credentialLabel_iff, ← status_clean_iff hsubject]
  show (∀ w ∈ draw uid app, w.Clean) ↔ _
  unfold draw
  simp only [List.forall_mem_append, List.forall_mem_singleton]
  constructor
  · rintro ⟨⟨⟨-, hpane⟩, hstatus⟩, -⟩
    refine ⟨hstatus, fun hp => hdetail.1 ?_⟩
    rwa [hp] at hpane
  · rintro ⟨hstatus, hgranted⟩
    refine ⟨⟨⟨⟨header_clean app uid, tabs_clean app⟩, ?_⟩, hstatus⟩, ?_⟩
    · cases hp : app.pane with
      | agents => exact List.forall_mem_singleton.2 (agents_clean app)
      | detail => exact hdetail.2 (hgranted hp)
      | shell => exact List.forall_mem_singleton.2 (shell_clean app)
    · cases app.mode with
      | help => exact List.forall_mem_singleton.2 help_clean
      | error => exact List.forall_mem_singleton.2 (error_clean app)
      | browsing => exact fun _ h => absurd h List.not_mem_nil
      | composing => exact fun _ h => absurd h List.not_mem_nil

namespace Sample

/-- A console in `ops`, with its capabilities on screen. -/
def hopped : App where
  __ := app.enter (.new ⟨"ops"⟩ ⟨attestationOf ⟨"operator"⟩ ⟨"ops"⟩ none, 0,
    ⟨[⟨"files.read", "read", "low", "reads\tfiles"⟩], ["read"], [("read", "usage:\n read PATH")],
      "trace"⟩⟩)
  pane := .detail

/-- A console whose credential file is named with an escape. -/
def escaped : App := { app with credentialPath := "/home/operator/\x1b[2J.json" }

end Sample

theorem draw_clean_iff_hopped :
    Sample.hopped.pane = .detail ∧
      ∀ w ∈ draw 1000 Sample.hopped, ∀ text ∈ w.fragments, CleanText text := by
  refine ⟨rfl, (draw_clean_iff 1000 Sample.hopped ?_ ?_ ?_).2 ⟨?_, ?_⟩⟩
  · decide
  · intro session hs
    obtain rfl := Option.some.inj hs
    decide
  · intro trace ht
    obtain rfl := Option.some.inj ht
    decide
  · have hlabel : CleanText (Chrome.credentialLabel "auth.json") := by decide
    exact clean_credentialLabel_iff.1 hlabel
  · intro _ session hs
    obtain rfl := Option.some.inj hs
    decide

/-- The escape in the file's name reaches the status line. -/
theorem escape_reaches_frame :
    CleanText Sample.escaped.subject ∧ Sample.escaped.session = none ∧
      Sample.escaped.brokerTrace = none ∧
      ¬∀ w ∈ draw 1000 Sample.escaped, ∀ text ∈ w.fragments, CleanText text := by
  have hsubject : CleanText Sample.escaped.subject := by decide
  refine ⟨hsubject, rfl, rfl, ?_⟩
  intro h
  have hstatus : ∀ w ∈ Chrome.drawStatus Sample.escaped, w.Clean := by
    intro w hw
    exact h w (by simp [draw, hw])
  have hlabel := clean_credentialLabel_iff.1 ((status_clean_iff hsubject).1 hstatus)
  have hescape : '\x1b' ∈ Sample.escaped.credentialPath.toList.rtakeWhile (· != '/') := by
    decide +kernel
  exact absurd (hlabel _ hescape) (by decide)

end DekoponConsole
