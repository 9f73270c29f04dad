/-
  What an attached asset holds is not seen.

  * `Inventory.Alike`: two inventories that differ in what their blobs hold, not in how
    much; every operation keeps them so, and gives them the same answers;
  * `SameBut`: passes that differ in the payload of an attached asset only, its command
    dispatched as a whole line;
  * `Twin`: consoles that differ in what their inventories hold only (`twin_react`);
  * `payload_unseen`: two runs that differ in such payloads show the same and ask the
    broker the same.  A payload that is typed is on screen until Enter.
-/
import DekoponConsole.Lib.Runs
import DekoponConsole.Proof.Composer
import DekoponConsole.Proof.Pass

namespace DekoponConsole

variable {exts : Externals}

/-! ## Inventories -/

namespace Inventory

/-- An item without what its blob holds. -/
def outline (item : AssetRow × DiskBlob) : AssetRow × ℕ := (item.1, item.2.len)

/-- Two inventories that differ in what their blobs hold only. -/
structure Alike (inv inv' : Inventory) : Prop where
  nextId : inv'.nextId = inv.nextId
  bytes : inv'.bytes = inv.bytes
  items : ∀ id : ℕ, inv'.items[id]?.map outline = inv.items[id]?.map outline

variable {inv inv' : Inventory}

theorem Alike.refl (inv : Inventory) : Alike inv inv := ⟨rfl, rfl, fun _ => rfl⟩

theorem Alike.toList (h : Alike inv inv') :
    (inv'.items.map fun _ => outline).toList = (inv.items.map fun _ => outline).toList := by
  refine Std.TreeMap.Equiv.toList_eq (.of_forall_constGet?_eq fun id => ?_)
  simpa using h.items id

theorem Alike.size (h : Alike inv inv') : inv'.items.size = inv.items.size := by
  simpa [← Std.TreeMap.length_toList] using congrArg List.length h.toList

/-- The rows of an inventory say nothing of what its blobs hold. -/
theorem Alike.rows (h : Alike inv inv') : inv'.rows = inv.rows := by
  have hrows (inv : Inventory) :
      inv.rows = (inv.items.map fun _ => outline).toList.map fun item => item.2.1 := by
    rw [Inventory.rows, Std.TreeMap.toList_map, List.map_map]
    rfl
  rw [hrows, hrows, h.toList]

/-- The same answer, and inventories that are still alike. -/
def AlikeAfter {α : Type} (r r' : α × Inventory) : Prop := r'.1 = r.1 ∧ Alike r.2 r'.2

theorem Alike.insert (h : Alike inv inv') {blob blob' : DiskBlob} (hb : blob'.len = blob.len)
    (contentType : String) (encoding : AssetEncoding) (origin : String) :
    AlikeAfter (inv.insert blob contentType encoding origin)
      (inv'.insert blob' contentType encoding origin) := by
  unfold Inventory.insert
  simp only [h.size, h.bytes, h.nextId, hb]
  split_ifs
  · exact ⟨rfl, h⟩
  cases checkedAdd inv.nextId 1 with
  | none => exact ⟨rfl, h⟩
  | some id =>
    refine ⟨rfl, rfl, rfl, fun id' => ?_⟩
    simp only [Std.TreeMap.getElem?_insert]
    split_ifs
    · simp [outline, hb]
    · exact h.items id'

theorem Alike.register (h : Alike inv inv') (descriptor : Except BlobError DiskBlob)
    (metadata : NewAsset) :
    AlikeAfter (inv.register descriptor metadata) (inv'.register descriptor metadata) := by
  unfold Inventory.register
  split_ifs
  · exact ⟨rfl, h⟩
  cases descriptor with
  | error error => exact ⟨rfl, h⟩
  | ok blob => exact h.insert rfl metadata.contentType metadata.encoding "provider"

theorem Alike.remove (h : Alike inv inv') {pinned pinned' : DiskBlob → Bool}
    (hp : ∀ blob blob', blob'.len = blob.len → pinned' blob' = pinned blob) (id : ℕ) :
    AlikeAfter (inv.remove pinned id) (inv'.remove pinned' id) := by
  have hid := h.items id
  unfold Inventory.remove
  cases ho : inv.items[id]? with
  | none =>
    rw [ho] at hid
    rw [Option.map_eq_none_iff.1 hid]
    exact ⟨rfl, h⟩
  | some item =>
    obtain ⟨row, blob⟩ := item
    rw [ho] at hid
    obtain ⟨⟨row', blob'⟩, ho', heq⟩ := Option.map_eq_some_iff.1 hid
    have hlen : blob'.len = blob.len := congrArg Prod.snd heq
    rw [ho']
    simp only [hp blob blob' hlen]
    split_ifs
    · exact ⟨rfl, h⟩
    · refine ⟨rfl, h.nextId, ?_, fun id' => ?_⟩
      · rw [h.bytes, hlen]
      · simp only [Std.TreeMap.getElem?_erase]
        split_ifs
        · rfl
        · exact h.items id'

/-- What is created of two payloads is alike: it is as long, or refused alike. -/
def AlikeBlobs : Except BlobError DiskBlob → Except BlobError DiskBlob → Prop
  | .ok blob, .ok blob' => blob'.len = blob.len
  | .error error, .error error' => error' = error
  | _, _ => False

/-- What two payloads decode to is alike: as many bytes, of which alike blobs are created,
    or one refusal. -/
def AlikeBytes (create create' : List UInt8 → Except BlobError DiskBlob) :
    Except String (List UInt8) → Except String (List UInt8) → Prop
  | .ok bytes, .ok bytes' =>
    bytes'.length = bytes.length ∧ AlikeBlobs (create bytes) (create' bytes')
  | .error error, .error error' => error' = error
  | _, _ => False

/-- Payloads of one length that are decoded alike. -/
structure AlikePayloads (exts : Externals) (create create' : List UInt8 → Except BlobError DiskBlob)
    (payload payload' : String) : Prop where
  length : byteLen payload'.toList = byteLen payload.toList
  decoded : AlikeBytes create create' (exts.base64Decode payload) (exts.base64Decode payload')

theorem Alike.attachBase64 (h : Alike inv inv')
    {create create' : List UInt8 → Except BlobError DiskBlob} {payload payload' : String}
    (hp : AlikePayloads exts create create' payload payload') (mime : String) :
    AlikeAfter (inv.attachBase64 exts create mime payload)
      (inv'.attachBase64 exts create' mime payload') := by
  obtain ⟨hlength, hdecoded⟩ := hp
  unfold Inventory.attachBase64
  rw [hlength]
  split_ifs
  · exact ⟨rfl, h⟩
  · exact ⟨rfl, h⟩
  generalize exts.base64Decode payload = decoded at hdecoded
  generalize exts.base64Decode payload' = decoded' at hdecoded
  match decoded, decoded', hdecoded with
  | .error error, .error _, rfl => exact ⟨rfl, h⟩
  | .ok bytes, .ok bytes', ⟨hlen, hblobs⟩ =>
    simp only [hlen]
    split_ifs
    · exact ⟨rfl, h⟩
    generalize create bytes = blob at hblobs
    generalize create' bytes' = blob' at hblobs
    match blob, blob', hblobs with
    | .error error, .error _, rfl => exact ⟨rfl, h⟩
    | .ok blob, .ok blob', hblob =>
      obtain ⟨hanswer, hafter⟩ := h.insert hblob mime .identity "console"
      exact ⟨congrArg (Except.mapError exts.blobErrorToString) hanswer, hafter⟩

end Inventory

/-! ## Consoles -/

section
variable {α β : Type*} {R : α → β → Prop} {xs : List α} {ys : List β}

theorem forall₂_set (h : List.Forall₂ R xs ys) {x : α} {y : β} (hxy : R x y) (i : ℕ) :
    List.Forall₂ R (xs.set i x) (ys.set i y) := by
  induction h generalizing i with
  | nil => exact .nil
  | cons h₁ h₂ ih =>
    cases i with
    | zero => exact .cons hxy h₂
    | succ i => exact .cons h₁ (ih i)

theorem forall₂_getD (h : List.Forall₂ R xs ys) {x : α} {y : β} (hxy : R x y) (i : ℕ) :
    R (xs.getD i x) (ys.getD i y) := by
  induction h generalizing i with
  | nil => exact hxy
  | cons h₁ h₂ ih =>
    cases i with
    | zero => exact h₁
    | succ i => exact ih i

end

/-- Inventories that differ in what they hold only, one by one. -/
abbrev AlikeStores : List Inventory → List Inventory → Prop := List.Forall₂ Inventory.Alike

theorem AlikeStores.map_rows {stores stores' : List Inventory} (h : AlikeStores stores stores') :
    stores'.map Inventory.rows = stores.map Inventory.rows := by
  induction h with
  | nil => rfl
  | cons halike _ ih => rw [List.map_cons, List.map_cons, halike.rows, ih]

/-- Consoles that differ in what their inventories hold only. -/
structure Twin (c c' : Console) : Prop where
  rest : c' = { c with stores := c'.stores }
  stores : AlikeStores c.stores c'.stores

/-- The same requests, and twins. -/
def TwinAfter (d d' : Dispatched) : Prop := Twin d.1 d'.1 ∧ d'.2 = d.2

theorem Twin.of_stores {c : Console} {stores : List Inventory} (h : AlikeStores c.stores stores) :
    Twin c { c with stores := stores } := ⟨rfl, h⟩

/-- The line that attaches a payload. -/
def attachLine (mime payload : String) : String :=
  ":asset " ++ ("attach-base64 --type " ++ (mime ++ " " ++ payload))

/-- **Passes that differ in the payload of an attached asset only**, its command dispatched as
    a whole line.  Whether a blob is pinned depends on no payload either. -/
inductive SameBut (exts : Externals) : Label → Label → Prop
  | same (l : Label) (h : ∀ pinned id, l ≠ .intake (.remove pinned id)) : SameBut exts l l
  | removed {pinned pinned' : DiskBlob → Bool} (id : ℕ)
      (h : ∀ blob blob', blob'.len = blob.len → pinned' blob' = pinned blob) :
      SameBut exts (.intake (.remove pinned id)) (.intake (.remove pinned' id))
  | attached (mime : String) (hm : ' ' ∉ mime.toList) {payload payload' : String}
      (answers : Answers) {blob : List UInt8 → Except BlobError DiskBlob}
      (hp : Inventory.AlikePayloads exts answers.blob blob payload payload') :
      SameBut exts (.action (.shell (attachLine mime payload)) answers)
        (.action (.shell (attachLine mime payload')) { answers with blob := blob })

/-! ## Actions -/

section
variable (exts : Externals) (answers : Answers) {c : Console} {stores : List Inventory}
  (h : AlikeStores c.stores stores)
include h

theorem twin_openHop (agent : AgentId) : TwinAfter (openHop exts answers c agent)
    (openHop exts answers { c with stores := stores } agent) := by
  have hprepared : AlikeStores (c.stores ++ [.default]) (stores ++ [.default]) :=
    List.rel_append h (.cons (.refl .default) .nil)
  unfold openHop openAgentWithAssets
  dsimp only
  rw [← h.length_eq]
  cases answers.leg with
  | error error => exact ⟨⟨rfl, hprepared⟩, rfl⟩
  | ok surface =>
    cases he : surface.effective.isEmpty with
    | true =>
      simp only [BrokerLeg.isEmpty, he, if_true]
      exact ⟨⟨rfl, hprepared⟩, rfl⟩
    | false =>
      simp only [BrokerLeg.isEmpty, he, Bool.false_eq_true, if_false]
      exact ⟨⟨rfl, hprepared⟩, rfl⟩

theorem twin_enter : TwinAfter (dispatchEnter exts answers c)
    (dispatchEnter exts answers { c with stores := stores }) := by
  unfold dispatchEnter
  cases hopTarget c.options c.app.busy (c.app.highlightedId exts) with
  | error refusal => exact ⟨⟨rfl, h⟩, rfl⟩
  | ok target =>
    obtain ⟨agent, _ | profile⟩ := target
    · exact twin_openHop exts answers h agent
    · exact twin_openHop exts answers (c := applyProfile c profile) h agent

theorem twin_turn (prompt : String) : TwinAfter (dispatchTurn exts answers c prompt)
    (dispatchTurn exts answers { c with stores := stores } prompt) := by
  unfold dispatchTurn openAgentWithAssets
  dsimp only
  split
  · cases answers.leg with
    | error error => exact ⟨.of_stores h, rfl⟩
    | ok surface =>
      dsimp only
      split_ifs
      · exact ⟨.of_stores h, rfl⟩
      · cases answers.model with
        | error error => exact ⟨.of_stores h, rfl⟩
        | ok => exact ⟨⟨rfl, h⟩, rfl⟩
  · exact ⟨.of_stores h, rfl⟩

theorem twin_script (agent : AgentId) (line : String) :
    TwinAfter (dispatchScript exts answers c agent line)
      (dispatchScript exts answers { c with stores := stores } agent line) := by
  unfold dispatchScript openAgentWithAssets
  dsimp only
  split
  · exact ⟨⟨rfl, h⟩, rfl⟩
  cases answers.leg with
  | error error => exact ⟨⟨rfl, h⟩, rfl⟩
  | ok surface =>
    dsimp only
    split_ifs
    · exact ⟨⟨rfl, h⟩, rfl⟩
    · exact ⟨⟨rfl, h⟩, rfl⟩

theorem twin_smoke (agent : AgentId) (line text : String) :
    TwinAfter (dispatchSmoke exts answers c agent line text)
      (dispatchSmoke exts answers { c with stores := stores } agent line text) := by
  unfold dispatchSmoke
  dsimp only
  split_ifs
  · exact ⟨⟨rfl, h⟩, rfl⟩
  split
  · exact ⟨⟨rfl, h⟩, rfl⟩
  split_ifs
  · simp only [smokeRecord]
    cases answers.record with
    | error error => exact ⟨⟨rfl, h⟩, rfl⟩
    | ok result => exact ⟨⟨rfl, h⟩, rfl⟩
  · exact ⟨⟨rfl, h⟩, rfl⟩

end

/-! ## Attaching -/

/-- What an `:asset` command leaves of its answer. -/
def attached (c : Console) (store : StoreId) (r : Except String ℕ × Inventory) : Console :=
  completeLocally { c with stores := c.stores.set store r.2 } assetLabel
    (match r.1 with
      | .ok id => "chat-asset:" ++ toString id
      | .error error => "refused: " ++ error)
    (match r.1 with
      | .ok _ => 0
      | .error _ => 1)

theorem dispatchAsset_eq (exts : Externals) (answers : Answers) (c : Console) (command : String) :
    dispatchAsset exts answers c command = (match c.app.assets with
      | none => c
      | some store => attached c store (attach exts answers command (c.stores.getD store .default)),
      []) := by
  unfold dispatchAsset
  cases c.app.assets with
  | none => rfl
  | some store =>
    dsimp only
    unfold attached
    cases (attach exts answers command (c.stores.getD store .default)).1 <;> rfl

theorem Inventory.AlikePayloads.refl (exts : Externals)
    (create : List UInt8 → Except BlobError DiskBlob) (payload : String) :
    AlikePayloads exts create create payload payload := by
  refine ⟨rfl, ?_⟩
  cases exts.base64Decode payload with
  | error error => exact rfl
  | ok bytes =>
    refine ⟨rfl, ?_⟩
    cases create bytes <;> exact rfl

theorem alikeAfter_attach (exts : Externals) (answers : Answers) (command : String)
    {inv inv' : Inventory} (h : inv.Alike inv') :
    Inventory.AlikeAfter (attach exts answers command inv) (attach exts answers command inv') := by
  unfold attach
  split
  · exact ⟨rfl, h⟩
  · exact h.attachBase64 (.refl exts answers.blob _) _

/-- The command that attaches a payload decodes it. -/
theorem attach_payload (exts : Externals) (answers : Answers) {mime : String}
    (hm : ' ' ∉ mime.toList) (payload : String) (inv : Inventory) :
    attach exts answers ("attach-base64 --type " ++ (mime ++ " " ++ payload)) inv =
      inv.attachBase64 exts answers.blob mime payload := by
  have hsplit : splitOnce (mime ++ " " ++ payload) ' ' = some (mime, payload) :=
    splitOnce_append hm payload
  rw [attach, stripPrefix_eq_some.2 rfl, Option.bind_some, hsplit]

theorem twin_attached {c : Console} {stores : List Inventory} (h : AlikeStores c.stores stores)
    (store : StoreId) {r r' : Except String ℕ × Inventory} (hr : Inventory.AlikeAfter r r') :
    Twin (attached c store r) (attached { c with stores := stores } store r') := by
  obtain ⟨answer, inv⟩ := r
  obtain ⟨answer', inv'⟩ := r'
  obtain ⟨rfl, hafter⟩ := hr
  exact ⟨rfl, forall₂_set h hafter store⟩

section
variable (exts : Externals) (answers : Answers) {c : Console} {stores : List Inventory}
  (h : AlikeStores c.stores stores)
include h

theorem twin_asset {answers' : Answers} {command command' : String}
    (hattach : ∀ inv inv', inv.Alike inv' →
      Inventory.AlikeAfter (attach exts answers command inv) (attach exts answers' command' inv')) :
    TwinAfter (dispatchAsset exts answers c command)
      (dispatchAsset exts answers' { c with stores := stores } command') := by
  rw [dispatchAsset_eq, dispatchAsset_eq]
  cases ha : c.app.assets with
  | none => exact ⟨.of_stores h, rfl⟩
  | some store =>
    exact ⟨twin_attached h store (hattach _ _ (forall₂_getD h (.refl .default) store)), rfl⟩

theorem twin_shell (line : String) : TwinAfter (dispatchShell exts answers c line)
    (dispatchShell exts answers { c with stores := stores } line) := by
  unfold dispatchShell
  dsimp only
  split
  · exact ⟨⟨rfl, h⟩, rfl⟩
  split
  · exact ⟨⟨rfl, h⟩, rfl⟩
  split
  · exact twin_smoke exts answers h _ line _
  split
  · exact ⟨⟨rfl, h⟩, rfl⟩
  split
  · exact twin_asset exts answers h fun inv inv' => alikeAfter_attach exts answers _
  split
  · exact ⟨⟨rfl, h⟩, rfl⟩
  · exact twin_script exts answers h _ line

theorem twin_dispatch (action : Action) : TwinAfter (dispatch exts answers c action)
    (dispatch exts answers { c with stores := stores } action) := by
  cases action with
  | enter => exact twin_enter exts answers h
  | turn prompt => exact twin_turn exts answers h prompt
  | shell line => exact twin_shell exts answers h line

/-- Lines that differ in their payload only leave twins. -/
theorem twin_attachLine {mime payload payload' : String} (hm : ' ' ∉ mime.toList)
    {blob : List UInt8 → Except BlobError DiskBlob}
    (hp : Inventory.AlikePayloads exts answers.blob blob payload payload') :
    TwinAfter (dispatchShell exts answers c (attachLine mime payload))
      (dispatchShell exts { answers with blob := blob } { c with stores := stores }
        (attachLine mime payload')) := by
  have hasset (payload : String) : startsWith (attachLine mime payload) ":asset" = true := by
    have hspace : (":asset " : String) = ":asset" ++ " " := by decide
    refine startsWith_iff_exists.2 ⟨" " ++ ("attach-base64 --type " ++ (mime ++ " " ++ payload)), ?_⟩
    rw [attachLine, hspace, String.append_assoc]
  have hsmoke (payload : String) : startsWith (attachLine mime payload) ":smoke" = false := by
    rw [Bool.eq_false_iff]
    exact fun hstarts => not_smoke_asset hstarts (hasset payload)
  have hrecord (payload : String) : stripPrefix (attachLine mime payload) ":smoke record " = none :=
    stripPrefix_append_none " record " (hsmoke payload)
  have hcommand (payload : String) : stripPrefix (attachLine mime payload) ":asset " =
      some ("attach-base64 --type " ++ (mime ++ " " ++ payload)) :=
    stripPrefix_eq_some.2 rfl
  unfold dispatchShell
  dsimp only
  split
  · exact ⟨⟨rfl, h⟩, rfl⟩
  split
  · exact ⟨⟨rfl, h⟩, rfl⟩
  simp only [hrecord, hsmoke, hcommand, Bool.false_eq_true, if_false]
  refine twin_asset exts answers h fun inv inv' halike => ?_
  rw [attach_payload exts answers hm, attach_payload exts _ hm]
  exact halike.attachBase64 hp mime

end

/-! ## Runs -/

section
variable (exts : Externals) {c : Console} {stores : List Inventory}
  (h : AlikeStores c.stores stores)
include h

theorem twin_key (key : KeyEvent) (answers : Answers) :
    TwinAfter (react exts c (.key key answers))
      (react exts { c with stores := stores } (.key key answers)) := by
  cases ha : (onKey exts c.app key c.stop).1 with
  | none =>
    rw [react_key_none ha, react_key_none (c := { c with stores := stores }) ha]
    exact ⟨⟨rfl, h⟩, rfl⟩
  | some action =>
    rw [react_key_some ha, react_key_some (c := { c with stores := stores }) ha]
    exact twin_dispatch exts answers (c := c.keyed exts key) h action

theorem twin_submitTurn (answers : Answers) :
    TwinAfter (react exts c (.submitTurn answers))
      (react exts { c with stores := stores } (.submitTurn answers)) := by
  cases hp : c.app.submitTurn.1 with
  | none =>
    rw [react_submit_none hp, react_submit_none (c := { c with stores := stores }) hp]
    exact ⟨⟨rfl, h⟩, rfl⟩
  | some prompt =>
    rw [react_submit_some hp, react_submit_some (c := { c with stores := stores }) hp]
    exact twin_dispatch exts answers (c := c.submitted) h (.turn prompt)

theorem twin_close (joined : Joined) :
    TwinAfter (react exts c (.close joined))
      (react exts { c with stores := stores } (.close joined)) := by
  obtain ⟨app, options, running, history, stop, stores₀, nextCancel, identity⟩ := c
  cases running with
  | none => exact ⟨⟨rfl, h⟩, rfl⟩
  | some turn =>
    simp only [react, finishTurn, settleTurn_eq]
    exact ⟨⟨rfl, h⟩, rfl⟩

theorem twin_intake {intake intake' : Intake}
    (hi : ∀ inv inv', inv.Alike inv' → (intake.apply inv).Alike (intake'.apply inv')) :
    TwinAfter (react exts c (.intake intake))
      (react exts { c with stores := stores } (.intake intake')) := by
  obtain ⟨app, options, running, history, stop, stores₀, nextCancel, identity⟩ := c
  cases running with
  | none => exact ⟨⟨rfl, h⟩, rfl⟩
  | some turn =>
    exact ⟨⟨rfl, forall₂_set h (hi _ _ (forall₂_getD h (.refl .default) _)) _⟩, rfl⟩

end

/-- **One pass** in lockstep. -/
theorem twin_react (exts : Externals) {c c' : Console} {l l' : Label} (h : Twin c c')
    (hl : SameBut exts l l') : TwinAfter (react exts c l) (react exts c' l') := by
  obtain ⟨hrest, hstores⟩ := h
  rw [hrest]
  cases hl with
  | attached mime hm answers hp => exact twin_attachLine exts answers hstores hm hp
  | removed id hpinned =>
    exact twin_intake exts hstores fun inv inv' halike => (halike.remove hpinned id).2
  | same l hl =>
    cases l with
    | key key answers => exact twin_key exts hstores key answers
    | action action answers => exact twin_dispatch exts answers hstores action
    | submitTurn answers => exact twin_submitTurn exts hstores answers
    | event event => exact ⟨⟨rfl, hstores⟩, rfl⟩
    | close joined => exact twin_close exts hstores joined
    | resize width height => exact ⟨⟨rfl, hstores⟩, rfl⟩
    | intake intake =>
      cases intake with
      | register descriptor metadata =>
        exact twin_intake exts hstores fun inv inv' halike =>
          (halike.register descriptor metadata).2
      | remove pinned id => exact absurd rfl (hl pinned id)

/-- **What an asset holds is not seen.**  Two runs that differ in the payloads of the attach
    commands dispatched in them, of one length and decoded alike, show the same in every
    state, ask the broker the same, and have the same rows in their inventories. -/
theorem payload_unseen (exts : Externals) (c : Console) {ls ls' : List Label}
    (h : List.Forall₂ (SameBut exts) ls ls') :
    let d := Runs.exec (step exts) c ls
    let d' := Runs.exec (step exts) c ls'
    d' = { d with stores := d'.stores } ∧
      d'.stores.map Inventory.rows = d.stores.map Inventory.rows ∧
      Runs.outputs (step exts) (asked exts) c ls' = Runs.outputs (step exts) (asked exts) c ls := by
  have hself : Twin c c := ⟨rfl, List.forall₂_same.2 fun inv _ => .refl inv⟩
  obtain ⟨⟨hrest, hstores⟩, hasked⟩ := Runs.lockstep (R := Twin) (L := SameBut exts)
    (fun _ _ _ _ ht hl => twin_react exts ht hl) hself h
  exact ⟨hrest, hstores.map_rows, hasked⟩

/-- A decoder that takes the characters for the bytes. -/
def Sample.decoding : Externals :=
  { Externals.plain with
    base64Decode := fun text => .ok (text.toList.map fun c => UInt8.ofNat c.toNat) }

/-- A hop, and a payload attached there. -/
def Sample.attaching (payload : String) : List Label :=
  [.action .enter Sample.answers, .action (.shell (attachLine "text/plain" payload)) Sample.answers]

/-- Two secrets of one length. -/
theorem payload_unseen_sample :
    let c := Console.start Sample.app Sample.options
    let d := Runs.exec (step Sample.decoding) c (Sample.attaching "c2VjcmV0")
    let d' := Runs.exec (step Sample.decoding) c (Sample.attaching "aGlkZGVu")
    d' = { d with stores := d'.stores } ∧
      d'.stores.map Inventory.rows = d.stores.map Inventory.rows ∧
      Runs.outputs (step Sample.decoding) (asked Sample.decoding) c
          (Sample.attaching "aGlkZGVu") =
        Runs.outputs (step Sample.decoding) (asked Sample.decoding) c
          (Sample.attaching "c2VjcmV0") := by
  have halike : Inventory.AlikePayloads Sample.decoding Sample.answers.blob Sample.answers.blob
      "c2VjcmV0" "aGlkZGVu" := by
    have hlength : ("aGlkZGVu".toList.map fun c => UInt8.ofNat c.toNat).length =
        ("c2VjcmV0".toList.map fun c => UInt8.ofNat c.toNat).length := by
      rw [List.length_map, List.length_map]
      decide
    exact ⟨by decide, hlength, hlength⟩
  have hsecret : SameBut Sample.decoding
      (.action (.shell (attachLine "text/plain" "c2VjcmV0")) Sample.answers)
      (.action (.shell (attachLine "text/plain" "aGlkZGVu")) Sample.answers) :=
    .attached "text/plain" (by decide) Sample.answers halike
  have hruns : List.Forall₂ (SameBut Sample.decoding) (Sample.attaching "c2VjcmV0")
      (Sample.attaching "aGlkZGVu") :=
    .cons (.same (.action .enter Sample.answers) fun pinned id h => by cases h)
      (.cons hsecret .nil)
  exact payload_unseen Sample.decoding (Console.start Sample.app Sample.options) hruns

end DekoponConsole
