/-
  Synthetic turns are told apart.

  * `readInvocationId` reads the boot nonce and the sequence number off an
    invocation id, `readInvocationId_request` says that it reads them back;
  * `SmokeCallers.desk`: what callers do, one after another or interleaved, is to take
    numbers of one counter for each process, and to use them;
  * `turn_ids_distinct`: processes with distinct seeds never make one id twice.
-/
import DekoponConsole.Lib.Framing
import DekoponConsole.Lib.Tickets
import DekoponConsole.Session

namespace DekoponConsole

variable (exts : Externals)

/-! ## The boot nonce -/

theorem hexDigit_spec : ∀ n < 16, hexDigit n ≠ '-' ∧ ∀ m < 16, hexDigit n = hexDigit m → n = m := by
  decide

theorem hexByte_injective : Function.Injective hexByte := by
  intro byte byte' h
  simp only [hexByte, List.cons.injEq, and_true] at h
  have hlt := byte.toNat_lt
  have hlt' := byte'.toNat_lt
  have hhigh := (hexDigit_spec _ (by omega)).2 _ (by omega) h.1
  have hlow := (hexDigit_spec _ (Nat.mod_lt _ (by decide))).2 _ (Nat.mod_lt _ (by decide)) h.2
  refine UInt8.toNat_inj.1 ?_
  rw [← Nat.div_add_mod byte.toNat 16, hhigh, hlow, Nat.div_add_mod]

theorem toList_bootNonce (seed : List UInt8) :
    (SmokeIdentity.new seed).bootNonce.toList = seed.flatMap hexByte :=
  String.toList_ofList

/-- The boot nonce spells the seed. -/
theorem bootNonce_injective :
    Function.Injective fun seed => (SmokeIdentity.new seed).bootNonce := by
  intro seed seed' h
  have hlist := congrArg String.toList h
  simp only [toList_bootNonce] at hlist
  exact Framing.flatMap_injective Nat.two_pos (fun _ => rfl) hexByte_injective hlist

theorem dash_not_mem_bootNonce (seed : List UInt8) :
    '-' ∉ (SmokeIdentity.new seed).bootNonce.toList := by
  rw [toList_bootNonce]
  intro h
  obtain ⟨byte, -, hmem⟩ := List.mem_flatMap.1 h
  have hlt := byte.toNat_lt
  rcases List.mem_pair.1 hmem with h | h
  · exact (hexDigit_spec _ (by omega)).1 h.symm
  · exact (hexDigit_spec _ (Nat.mod_lt _ (by decide))).1 h.symm

/-! ## Invocation ids -/

/-- The boot nonce and the sequence number of the turn with this invocation id. -/
def readInvocationId (id : String) : Option (String × ℕ) :=
  (stripPrefix id "console-smoke-").bind fun rest =>
    (splitOnce rest '-').bind fun (bootNonce, digits) =>
      digits.toNat?.map fun sequence => (bootNonce, sequence)

/-- **Ids read back.** -/
theorem readInvocationId_request {bootNonce : String} (h : '-' ∉ bootNonce.toList) (sequence : ℕ)
    (parent : TraceParent) (text : String) :
    readInvocationId (SmokeIdentity.request exts bootNonce sequence parent text).id =
      some (bootNonce, sequence) := by
  have hid : (SmokeIdentity.request exts bootNonce sequence parent text).id =
      "console-smoke-" ++ (bootNonce ++ "-" ++ sequence.repr) := by
    rw [← String.append_assoc, ← String.append_assoc]
    rfl
  have hsplit : splitOnce (bootNonce ++ "-" ++ sequence.repr) '-' =
      some (bootNonce, sequence.repr) := splitOnce_append h _
  rw [readInvocationId, stripPrefix_eq_some.2 hid, Option.bind_some, hsplit, Option.bind_some]
  simp only [Nat.toNat?_repr, Option.map_some]

/-! ## Callers -/

section
variable {ι κ : Type}

/-- The calls made in a process so far, each one counted when it takes its number. -/
def turnCalls [DecidableEq ι] (process : ι) (steps : List (TurnStep ι κ)) : ℕ :=
  steps.countP fun
    | .turn process' _ _ | .fetch process' _ => process' = process
    | .build _ _ _ => false

/-- A step of a caller, as a step at the counters. -/
def TurnStep.stage : TurnStep ι κ → Tickets.Stage ι κ
  | .turn process _ _ => .serve process
  | .fetch process caller => .take process caller
  | .build caller _ _ => .use caller

/-- The counters, the numbers between two steps, and the numbers of the turns. -/
def SmokeCallers.desk (s : SmokeCallers ι κ) : Tickets.Desk ι κ where
  next process := (s.identities process).next
  held := s.fetched
  used := s.turns.map fun turn => (turn.1, turn.2.delivery.sequence)

variable [DecidableEq ι] [DecidableEq κ]

/-- A caller that holds a number builds the turn with it. -/
theorem step_build {s : SmokeCallers ι κ} {process : ι} {caller : κ} {sequence : ℕ}
    (h : s.fetched caller = some (process, sequence)) (parent : TraceParent) (text : String) :
    s.step exts (.build caller parent text) =
      { s with
        fetched := Function.update s.fetched caller none
        turns := s.turns ++ [(process,
          SmokeIdentity.request exts (s.identities process).bootNonce sequence parent text)] } := by
  simp only [SmokeCallers.step, h]

/-- The two steps of a call that no other one overlaps do what `SmokeIdentity::turn` does. -/
theorem turn_eq_steps (s : SmokeCallers ι κ) (process : ι) (caller : κ) (parent : TraceParent)
    (text : String) :
    let s' := Runs.exec (SmokeCallers.step exts) s
      [.fetch process caller, .build caller parent text]
    s'.identities = (s.step exts (.turn process parent text)).identities ∧
      s'.turns = (s.step exts (.turn process parent text)).turns := by
  have hfetched : (s.step exts (.fetch process caller)).fetched caller =
      some (process, (s.identities process).next) := Function.update_self ..
  have hidentity : (s.step exts (.fetch process caller)).identities process =
      (s.identities process).fetchAdd.2 := Function.update_self ..
  rw [Runs.exec_cons, Runs.exec_cons, Runs.exec_nil, step_build exts hfetched, hidentity]
  exact ⟨rfl, rfl⟩

omit [DecidableEq κ] in
/-- One process has moved its counter on. -/
theorem next_fetchAdd (s : SmokeCallers ι κ) (process process' : ι) :
    (Function.update s.identities process (s.identities process).fetchAdd.2 process').next =
      Function.update (fun process => (s.identities process).next) process
        (((s.identities process).next + 1) % u64Size) process' := by
  by_cases hp : process' = process
  · subst hp
    rw [Function.update_self, Function.update_self]
    rfl
  · rw [Function.update_of_ne hp, Function.update_of_ne hp]

theorem desk_step (s : SmokeCallers ι κ) (l : TurnStep ι κ) :
    (s.step exts l).desk = s.desk.step u64Size l.stage := by
  cases l with
  | turn process parent text =>
    have hused : (s.step exts (.turn process parent text)).desk.used =
        s.desk.used ++ [(process, (s.identities process).next)] := List.map_append ..
    exact Tickets.Desk.ext (funext (next_fetchAdd s process)) rfl hused
  | fetch process caller =>
    exact Tickets.Desk.ext (funext (next_fetchAdd s process)) rfl rfl
  | build caller parent text =>
    cases hf : s.fetched caller with
    | none =>
      simp only [SmokeCallers.step, TurnStep.stage, Tickets.Desk.step, SmokeCallers.desk, hf]
    | some ticket =>
      rw [step_build exts hf, TurnStep.stage, Tickets.Desk.step]
      simp only [SmokeCallers.desk, hf, List.map_append, List.map_singleton]
      rfl

/-- The processes keep their nonces, and every turn has the nonce of its process, and
    an id that its nonce and number are read back from. -/
structure Spelled (seeds : ι → List UInt8) (s : SmokeCallers ι κ) : Prop where
  nonce : ∀ process, (s.identities process).bootNonce =
    (SmokeIdentity.new (seeds process)).bootNonce
  turns : ∀ turn ∈ s.turns, turn.2.delivery.bootNonce =
      (SmokeIdentity.new (seeds turn.1)).bootNonce ∧
    readInvocationId turn.2.id = some (turn.2.delivery.bootNonce, turn.2.delivery.sequence)

theorem Spelled.step {seeds : ι → List UInt8} {s : SmokeCallers ι κ} (h : Spelled seeds s)
    (l : TurnStep ι κ) : Spelled seeds (s.step exts l) := by
  have hnonce (process process' : ι) :
      (Function.update s.identities process (s.identities process).fetchAdd.2 process').bootNonce =
        (SmokeIdentity.new (seeds process')).bootNonce := by
    by_cases hp : process' = process
    · subst hp
      rw [Function.update_self]
      exact h.nonce process'
    · rw [Function.update_of_ne hp]
      exact h.nonce process'
  have hbuilt (process : ι) (sequence : ℕ) (parent : TraceParent) (text : String) :
      ∀ turn ∈ s.turns ++ [(process,
          SmokeIdentity.request exts (s.identities process).bootNonce sequence parent text)],
        turn.2.delivery.bootNonce = (SmokeIdentity.new (seeds turn.1)).bootNonce ∧
          readInvocationId turn.2.id =
            some (turn.2.delivery.bootNonce, turn.2.delivery.sequence) := by
    intro turn ht
    rcases List.mem_append.1 ht with ht | ht
    · exact h.turns turn ht
    · rw [List.mem_singleton.1 ht]
      refine ⟨h.nonce process, readInvocationId_request exts ?_ sequence parent text⟩
      rw [h.nonce]
      exact dash_not_mem_bootNonce _
  cases l with
  | turn process parent text => exact ⟨hnonce process, hbuilt process _ parent text⟩
  | fetch process caller => exact ⟨hnonce process, h.turns⟩
  | build caller parent text =>
    cases hf : s.fetched caller with
    | none =>
      simp only [SmokeCallers.step, hf]
      exact h
    | some ticket =>
      rw [step_build exts hf]
      exact ⟨h.nonce, hbuilt ticket.1 ticket.2 parent text⟩

theorem spelled_exec (seeds : ι → List UInt8) (steps : List (TurnStep ι κ)) :
    Spelled seeds (Runs.exec (SmokeCallers.step exts) (.start κ seeds) steps) :=
  Runs.exec_of_forall (fun _ l h => h.step exts l)
    ⟨fun _ => rfl, fun _ h => absurd h List.not_mem_nil⟩ steps

/-- **Synthetic turn identities never collide.**  Whatever callers do in processes
    with distinct seeds, in whatever order, the ids of their turns are distinct; and
    an id tells the nonce and the number of its turn's delivery. -/
theorem turn_ids_distinct {seeds : ι → List UInt8} (hseeds : Function.Injective seeds)
    {steps : List (TurnStep ι κ)} (hcalls : ∀ process, turnCalls process steps < u64Size) :
    let turns := (Runs.exec (SmokeCallers.step exts) (.start κ seeds) steps).turns
    (turns.map fun turn => turn.2.id).Nodup ∧
      ∀ turn ∈ turns, readInvocationId turn.2.id =
        some (turn.2.delivery.bootNonce, turn.2.delivery.sequence) := by
  intro turns
  have hspelled := (spelled_exec exts seeds steps).turns
  refine ⟨?_, fun turn ht => (hspelled turn ht).2⟩
  have htaken (process : ι) :
      Tickets.taken process (steps.map TurnStep.stage) = turnCalls process steps := by
    rw [Tickets.taken, List.countP_map, turnCalls]
    refine List.countP_congr ?_
    rintro (_ | _ | _) - <;> exact Iff.rfl
  have hused : (turns.map fun turn => (turn.1, turn.2.delivery.sequence)).Nodup := by
    have h : (Runs.exec (Tickets.Desk.step u64Size) (.open_ fun _ => 1)
        (steps.map TurnStep.stage)).used.Nodup := by
      refine Tickets.used_nodup _ _ ?_
      intro process
      rw [htaken]
      exact (hcalls process).le
    have hdesk := Runs.exec_map (desk_step exts) (.start κ seeds) steps
    have hstart : Tickets.Desk.open_ (fun _ => 1) = (SmokeCallers.start κ seeds).desk := rfl
    rw [hstart, ← hdesk] at h
    exact h
  rw [List.nodup_iff_pairwise_ne, List.pairwise_map] at hused ⊢
  refine hused.imp_of_mem ?_
  intro turn turn' ht ht' hne hid
  obtain ⟨hnonce, hread⟩ := hspelled turn ht
  obtain ⟨hnonce', hread'⟩ := hspelled turn' ht'
  rw [hid, hread'] at hread
  obtain ⟨hsame, hsequence⟩ := Prod.mk.inj (Option.some.inj hread)
  have hprocess : turn.1 = turn'.1 := by
    refine hseeds (bootNonce_injective ?_)
    exact hnonce.symm.trans (hsame.symm.trans hnonce')
  exact hne (Prod.ext hprocess hsequence.symm)

end

/-- Two processes; in the first the caller that takes the first number builds last, after a
    whole call of another. -/
theorem turn_ids_distinct_overlapping :
    let steps : List (TurnStep Bool ℕ) :=
      [.fetch true 0, .fetch true 1, .fetch false 2, .build 1 ⟨[]⟩ "b", .build 2 ⟨[]⟩ "c",
        .turn true ⟨[]⟩ "d", .build 0 ⟨[]⟩ "a"]
    let turns := (Runs.exec (SmokeCallers.step .plain)
      (.start ℕ fun process => List.replicate 16 (if process then 1 else 2)) steps).turns
    (turns.map fun turn => turn.2.id).Nodup ∧
      ∀ turn ∈ turns, readInvocationId turn.2.id =
        some (turn.2.delivery.bootNonce, turn.2.delivery.sequence) :=
  turn_ids_distinct .plain (by decide) (by decide)

end DekoponConsole
