/-
  Paging through the shell pane.

  Paging moves the row on top (`topRow`) in `usize`, drawing puts it into a `u16`.
  `everyRowSeen_iff`: with an area of some height, every row can be seen exactly
  when the last top row is within a `u16`.
-/
import DekoponConsole.Ui

namespace DekoponConsole

open Shell

variable (exts : Externals)

namespace Shell

/-- The row on top of the pane: the chosen one, or the last that can be. -/
def topRow (app : App) : ℕ := min (app.shellTop.getD (maxTop exts app)) (maxTop exts app)

/-- `n` presses of one paging key. -/
def pages (up : Bool) (n : ℕ) (app : App) : App := (fun app => page exts app up)^[n] app

/-- The visual rows of the transcript and the prompt. -/
def rowCount (app : App) : ℕ := exts.lineCount (lines app) (max app.shellViewport.1 1)

/-- The rows drawn in an inner area equal to the viewport. -/
def shownRows (app : App) : List ℕ := drawnRows exts app app.shellViewport

/-- The first row drawn there. -/
def shownTop (app : App) : ℕ := drawTop exts app app.shellViewport

/-! ## One press -/

/-- The parts of the state that say what there is to page through. -/
structure SamePages (app app' : App) : Prop where
  lines : lines app' = lines app
  viewport : app'.shellViewport = app.shellViewport

theorem SamePages.maxTop {app app' : App} (h : SamePages app app') :
    Shell.maxTop exts app' = Shell.maxTop exts app := by
  simp only [Shell.maxTop, h.lines, h.viewport]

theorem SamePages.rowCount {app app' : App} (h : SamePages app app') :
    rowCount exts app' = rowCount exts app := by
  simp only [Shell.rowCount, h.lines, h.viewport]

theorem samePages_shellTop (app : App) (top : Option ℕ) :
    SamePages app { app with shellTop := top } := ⟨rfl, rfl⟩

theorem samePages_page (app : App) (up : Bool) : SamePages app (page exts app up) := ⟨rfl, rfl⟩

theorem samePages_pages (app : App) (up : Bool) (n : ℕ) : SamePages app (pages exts up n app) := by
  induction n with
  | zero => exact ⟨rfl, rfl⟩
  | succ n ih =>
    have h := samePages_page exts (pages exts up n app) up
    rw [pages, Function.iterate_succ_apply']
    exact ⟨h.lines.trans ih.lines, h.viewport.trans ih.viewport⟩

/-- The row one press goes to. -/
def nextRow (app : App) (up : Bool) : ℕ :=
  if up then topRow exts app - max app.shellViewport.2 1
  else min (saturatingAdd u64Size (topRow exts app) (max app.shellViewport.2 1)) (maxTop exts app)

theorem topRow_le (app : App) : topRow exts app ≤ maxTop exts app := min_le_right _ _

theorem nextRow_le (app : App) (up : Bool) : nextRow exts app up ≤ maxTop exts app := by
  have := topRow_le exts app
  unfold nextRow
  split_ifs <;> omega

/-- After a press the pane follows the prompt, or has a row chosen above the last
    top row. -/
theorem shellTop_page (app : App) (up : Bool) :
    (page exts app up).shellTop =
      if nextRow exts app up ≠ maxTop exts app then some (nextRow exts app up) else none := rfl

theorem topRow_page (app : App) (up : Bool) :
    topRow exts (page exts app up) = nextRow exts app up := by
  have hle := nextRow_le exts app up
  rw [topRow, (samePages_page exts app up).maxTop, shellTop_page]
  split_ifs with h
  · simpa using hle
  · have heq : nextRow exts app up = maxTop exts app := by simpa using h
    simp [heq]

theorem nextRow_down {app : App} (h : maxTop exts app < u64Size) :
    nextRow exts app false =
      min (topRow exts app + max app.shellViewport.2 1) (maxTop exts app) := by
  rw [nextRow, if_neg Bool.false_ne_true, saturatingAdd]
  omega

/-! ## Repeated presses -/

theorem topRow_pages_up (app : App) (n : ℕ) :
    topRow exts (pages exts true n app) = topRow exts app - n * max app.shellViewport.2 1 := by
  induction n with
  | zero => simp [pages]
  | succ n ih =>
    have hsame := samePages_pages exts app true n
    rw [pages, Function.iterate_succ_apply', topRow_page, nextRow, if_pos rfl]
    rw [pages] at ih hsame
    rw [ih, hsame.viewport, Nat.add_mul, one_mul, Nat.sub_sub]

theorem topRow_pages_down {app : App} (h : maxTop exts app < u64Size) (n : ℕ) :
    topRow exts (pages exts false n app) =
      min (topRow exts app + n * max app.shellViewport.2 1) (maxTop exts app) := by
  induction n with
  | zero => simp [pages, topRow_le]
  | succ n ih =>
    have hsame := samePages_pages exts app false n
    rw [pages, Function.iterate_succ_apply', topRow_page]
    rw [pages] at ih hsame
    rw [nextRow_down exts (by rwa [hsame.maxTop]), ih, hsame.viewport, hsame.maxTop, Nat.add_mul,
      one_mul]
    omega

/-! ## What is drawn -/

theorem mem_shownRows {app : App} {row : ℕ} :
    row ∈ shownRows exts app ↔ shownTop exts app ≤ row ∧
      row < shownTop exts app + app.shellViewport.2 ∧ row < rowCount exts app := by
  simp only [shownRows, drawnRows, rowCount, shownTop, List.mem_range'_1]
  omega

theorem shownTop_eq (app : App) :
    shownTop exts app = min (topRow exts app) (u16Size - 1) := rfl

/-- The paragraph's offset is the row on top, where it fits. -/
theorem shownTop_of_le {app : App} (h : maxTop exts app ≤ u16Size - 1) :
    shownTop exts app = topRow exts app := by
  have := topRow_le exts app
  rw [shownTop_eq]
  omega

theorem maxTop_eq (app : App) : maxTop exts app = rowCount exts app - app.shellViewport.2 := rfl

/-- **Every row can be seen.**  Following the prompt shows the last rows; from the
    first row on, paging down shows every row and ends by following the prompt;
    from any row paging up reaches the first one; and a press leaves the pane
    following, or with a row chosen above the last top row. -/
structure EveryRowSeen (app : App) : Prop where
  follow : ∀ row, row ∈ shownRows exts { app with shellTop := none } ↔
    rowCount exts app - app.shellViewport.2 ≤ row ∧ row < rowCount exts app
  down : ∃ n, (pages exts false n (home app)).shellTop = none ∧
    ∀ row < rowCount exts app, ∃ m ≤ n, row ∈ shownRows exts (pages exts false m (home app))
  up : ∀ top, ∃ n, shownTop exts (pages exts true n { app with shellTop := top }) = 0
  clamped : ∀ top up row, (page exts { app with shellTop := top } up).shellTop = some row →
    row < maxTop exts app

/-- A press never chooses the last top row. -/
theorem lt_of_shellTop_page {app : App} {up : Bool} {row : ℕ}
    (h : (page exts app up).shellTop = some row) : row < maxTop exts app := by
  have hle := nextRow_le exts app up
  rw [shellTop_page] at h
  split_ifs at h with hne
  obtain rfl := Option.some.inj h
  omega

theorem follow_of_le {app : App} (h : maxTop exts app ≤ u16Size - 1) (row : ℕ) :
    row ∈ shownRows exts { app with shellTop := none } ↔
      rowCount exts app - app.shellViewport.2 ≤ row ∧ row < rowCount exts app := by
  have hsame := samePages_shellTop app none
  have htop : topRow exts { app with shellTop := none } = maxTop exts app := by
    rw [topRow, hsame.maxTop]
    simp
  have hdraw : shownTop exts { app with shellTop := none } = maxTop exts app := by
    rw [← htop]
    exact shownTop_of_le exts (by rwa [hsame.maxTop])
  rw [mem_shownRows, hsame.rowCount]
  simp only [hdraw, maxTop_eq]
  omega

/-- Paging down from the first row shows page after page. -/
theorem down_of_le {app : App} (hheight : 0 < app.shellViewport.2)
    (h : maxTop exts app ≤ u16Size - 1) :
    ∃ n, (pages exts false n (home app)).shellTop = none ∧
      ∀ row < rowCount exts app, ∃ m ≤ n, row ∈ shownRows exts (pages exts false m (home app)) := by
  have hfits : u16Size - 1 < u64Size := by decide
  have hhome := samePages_shellTop app (some 0)
  have hmax : maxTop exts (home app) < u64Size := by
    rw [home, hhome.maxTop]
    omega
  have htop (m : ℕ) : topRow exts (pages exts false m (home app)) =
      min (m * app.shellViewport.2) (maxTop exts app) := by
    have hzero : topRow exts (home app) = 0 := by simp [topRow, home]
    rw [topRow_pages_down exts hmax, hzero, home, hhome.maxTop, hhome.viewport]
    have hheight' : max app.shellViewport.2 1 = app.shellViewport.2 := by omega
    rw [hheight', Nat.zero_add]
  have hmem (m row : ℕ) : row ∈ shownRows exts (pages exts false m (home app)) ↔
      min (m * app.shellViewport.2) (maxTop exts app) ≤ row ∧
        row < min (m * app.shellViewport.2) (maxTop exts app) + app.shellViewport.2 ∧
        row < rowCount exts app := by
    have hsame := samePages_pages exts (home app) false m
    rw [mem_shownRows, shownTop_of_le exts, htop, hsame.rowCount, hsame.viewport]
    · rfl
    · rw [hsame.maxTop]
      exact h
  -- after `n` presses the row on top is the last one
  let n := maxTop exts app / app.shellViewport.2 + 1
  have hn : maxTop exts app ≤ n * app.shellViewport.2 := by
    have := Nat.lt_div_mul_add (a := maxTop exts app) hheight
    simp only [n, Nat.add_mul, one_mul]
    omega
  refine ⟨n, ?_, ?_⟩
  · have hlast := htop n
    have hsame := samePages_pages exts (home app) false (maxTop exts app / app.shellViewport.2)
    rw [min_eq_right hn] at hlast
    simp only [n, pages] at hlast hsame ⊢
    rw [Function.iterate_succ_apply'] at hlast ⊢
    rw [topRow_page] at hlast
    rw [shellTop_page, hlast, hsame.maxTop]
    simp [home, hhome.maxTop]
  · intro row hrow
    by_cases hlast : row < maxTop exts app
    · refine ⟨row / app.shellViewport.2, ?_, ?_⟩
      · have := Nat.div_le_div_right (c := app.shellViewport.2) hlast.le
        omega
      · have hle := Nat.div_mul_le_self row app.shellViewport.2
        have hlt := Nat.lt_div_mul_add (a := row) hheight
        rw [hmem]
        omega
    · refine ⟨n, le_rfl, ?_⟩
      rw [hmem, maxTop_eq] at *
      omega

/-- As many presses as there are rows above reach the first one. -/
theorem shownTop_pages_up (app : App) :
    shownTop exts (pages exts true (topRow exts app) app) = 0 := by
  have hdist : 1 ≤ max app.shellViewport.2 1 := le_max_right _ _
  rw [shownTop_eq, topRow_pages_up, Nat.sub_eq_zero_of_le (Nat.le_mul_of_pos_right _ hdist),
    Nat.zero_min]

/-- **Exactly when every row can be seen**: when the last top row is within the
    `u16` the drawing scrolls by. -/
theorem everyRowSeen_iff (app : App) (hheight : 0 < app.shellViewport.2) :
    EveryRowSeen exts app ↔ maxTop exts app ≤ u16Size - 1 := by
  constructor
  · intro h
    by_contra hmax
    have hsame := samePages_shellTop app none
    have hdraw : shownTop exts { app with shellTop := none } ≤ u16Size - 1 := min_le_right _ _
    -- the last row is past the area the paragraph is scrolled to
    have hlast := (h.follow (rowCount exts app - 1)).2
    rw [mem_shownRows, hsame.rowCount] at hlast
    simp only [maxTop_eq] at hmax hlast hdraw
    omega
  · intro h
    refine ⟨follow_of_le exts h, down_of_le exts hheight h,
      fun top => ⟨_, shownTop_pages_up exts _⟩, ?_⟩
    intro top up row hrow
    have hlt := lt_of_shellTop_page exts hrow
    rwa [(samePages_shellTop app top).maxTop] at hlt

/-- A viewport of 80 columns and 24 rows, after `n` commands without output. -/
def busyDay (n : ℕ) : App :=
  { App.new [] "operator" "broker.sock" "auth.json" with
    shellHistory := List.replicate n ⟨"true", "", some 0, false⟩
    shellViewport := (80, 24) }

theorem rowCount_busyDay (n : ℕ) : rowCount .plain (busyDay n) = 2 * n + 1 := by
  simp [rowCount, Externals.plain, lines, busyDay, entryLines, List.length_flatMap, Nat.mul_comm]

/-- A day of ten commands can be paged through. -/
theorem everyRowSeen_iff_ten : 0 < (busyDay 10).shellViewport.2 ∧ EveryRowSeen .plain (busyDay 10) := by
  refine ⟨by decide, (everyRowSeen_iff .plain (busyDay 10) (by decide)).2 ?_⟩
  rw [maxTop_eq, rowCount_busyDay]
  decide

/-- After forty thousand commands the prompt is not drawn. -/
theorem prompt_out_of_sight :
    rowCount .plain (busyDay 40000) = 80001 ∧
      80000 ∉ shownRows .plain (busyDay 40000) ∧ (busyDay 40000).shellTop = none ∧
      ¬ EveryRowSeen .plain (busyDay 40000) := by
  have hcount := rowCount_busyDay 40000
  have hnot : 80000 ∉ shownRows .plain (busyDay 40000) := by
    have htop : shownTop .plain (busyDay 40000) ≤ u16Size - 1 := min_le_right _ _
    have hheight : (busyDay 40000).shellViewport.2 = 24 := rfl
    have hsize : u16Size = 65536 := rfl
    rw [mem_shownRows, hheight]
    omega
  refine ⟨hcount, hnot, rfl, ?_⟩
  intro h
  refine hnot ((h.follow 80000).2 ⟨?_, ?_⟩) <;> rw [hcount]
  · decide
  · decide

end Shell

end DekoponConsole
