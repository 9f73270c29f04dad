/-
  The asset inventory refines a bounded map with fresh identifiers.

  * `Refines inv m`: the counter, the byte total and the items of an inventory
    are those of the bounded map `m`;
  * `Op` is one operation from outside; `Op.run_cases` says all that one can do,
    and `Op.succeeds_iff` when one succeeds;
  * `Refines.insert` and `Refines.remove` follow it on the bounded map;
  * `ledger` reads off the operations and their answers what must be held;
    `inventory_refines` compares it with the inventory after every run.
-/
import DekoponConsole.Lib.Runs
import DekoponConsole.Lib.BoundedMap
import DekoponConsole.Assets

namespace DekoponConsole

open Bounded

/-! ## Operations -/

/-- One operation on an inventory, with what it meets outside it. -/
inductive Op
  | attachBase64 (create : List UInt8 → Except BlobError DiskBlob) (mime encoded : String)
  | register (descriptor : Except BlobError DiskBlob) (metadata : NewAsset)
  | fetchForCapability (id : ℕ)
  | rows
  | remove (pinned : DiskBlob → Bool) (id : ℕ)

/-- What an operation answers. -/
inductive Answer
  | attached (result : Except String ℕ)
  | registered (result : Except BlobError ℕ)
  | fetched (result : Option (String × DiskBlob))
  | listed (rows : List AssetRow)
  | removed (result : Except BlobError Unit)

/-- The identifier of a successful insertion. -/
def Answer.newId : Answer → Option ℕ
  | attached (.ok id) | registered (.ok id) => some id
  | _ => none

def Answer.isError : Answer → Bool
  | attached (.error _) | registered (.error _) | fetched none | removed (.error _) => true
  | _ => false

section
variable (exts : Externals)

def Op.run (inv : Inventory) : Op → Answer × Inventory
  | attachBase64 create mime encoded =>
    let r := inv.attachBase64 exts create mime encoded
    (.attached r.1, r.2)
  | register descriptor metadata =>
    let r := inv.register descriptor metadata
    (.registered r.1, r.2)
  | fetchForCapability id => (.fetched (inv.fetchForCapability id), inv)
  | rows => (.listed inv.rows, inv)
  | remove pinned id =>
    let r := inv.remove pinned id
    (.removed r.1, r.2)

/-- The content type and the blob that an insertion inserts. -/
def Op.content : Op → Option (String × DiskBlob)
  | attachBase64 create mime encoded =>
    match exts.base64Decode encoded with
    | .ok bytes =>
      match create bytes with
      | .ok blob => some (mime, blob)
      | .error _ => none
    | .error _ => none
  | register (.ok blob) metadata => some (metadata.contentType, blob)
  | _ => none

end

/-! ## What one operation can do -/

theorem wrappingAdd_eq {a b : ℕ} (h : a + b < u64Size) : wrappingAdd a b = a + b :=
  Nat.mod_eq_of_lt h

theorem wrappingSub_eq {a b : ℕ} (ha : a < u64Size) (h : b ≤ a) : wrappingSub a b = a - b := by
  rw [wrappingSub, Nat.mod_eq_of_lt (by omega : b < u64Size)]
  have : a + (u64Size - b) = a - b + u64Size := by omega
  rw [this, Nat.add_mod_right, Nat.mod_eq_of_lt (by omega)]

/-- The item an insertion makes. -/
def newItem (id : ℕ) (blob : DiskBlob) (contentType : String) (encoding : AssetEncoding)
    (origin : String) : AssetRow × DiskBlob :=
  ({ id := id, contentType := contentType, encoding := encoding, bytes := some blob.len
     origin := origin, sent := false }, blob)

/-- What `insert` does when it succeeds. -/
theorem insert_cases {inv inv' : Inventory} {blob : DiskBlob} {contentType origin : String}
    {encoding : AssetEncoding} {id : ℕ}
    (h : inv.insert blob contentType encoding origin = (.ok id, inv')) :
    inv.items.size < maxItems ∧ blob.len ≤ maxBytes ∧ inv.bytes ≤ maxBytes - blob.len ∧
      id = inv.nextId + 1 ∧
      inv' = {
        nextId := id
        bytes := wrappingAdd inv.bytes blob.len
        items := inv.items.insert id (newItem id blob contentType encoding origin) } := by
  simp only [Inventory.insert, checkedAdd] at h
  by_cases hg : (decide (inv.items.size ≥ maxItems) || decide (blob.len > maxBytes) ||
      decide (inv.bytes > maxBytes - blob.len)) = true
  · simp [hg] at h
  · by_cases hid : inv.nextId + 1 < u64Size
    · simp only [hg, hid, if_true, Bool.false_eq_true, if_false, Prod.mk.injEq,
        Except.ok.injEq] at h
      obtain ⟨rfl, rfl⟩ := h
      simp only [Bool.or_eq_true, decide_eq_true_eq, not_or, ge_iff_le, gt_iff_lt, not_le,
        not_lt] at hg
      exact ⟨hg.1.1, hg.1.2, hg.2, rfl, rfl⟩
    · simp [hg, hid] at h

theorem insert_error {inv : Inventory} {blob : DiskBlob} {contentType origin : String}
    {encoding : AssetEncoding} {error : BlobError}
    (h : (inv.insert blob contentType encoding origin).1 = .error error) :
    (inv.insert blob contentType encoding origin).2 = inv := by
  simp only [Inventory.insert, checkedAdd] at h ⊢
  by_cases hg : (decide (inv.items.size ≥ maxItems) || decide (blob.len > maxBytes) ||
      decide (inv.bytes > maxBytes - blob.len)) = true
  · simp [hg]
  · by_cases hid : inv.nextId + 1 < u64Size
    · simp [hg, hid] at h
    · simp [hg, hid]

/-- What `remove` does. -/
theorem remove_cases (pinned : DiskBlob → Bool) (inv : Inventory) (id : ℕ) :
    (∃ item, inv.items[id]? = some item ∧ inv.remove pinned id =
        (.ok (), { inv with
          bytes := wrappingSub inv.bytes item.2.len
          items := inv.items.erase id })) ∨
      ∃ error, inv.remove pinned id = (.error error, inv) := by
  cases hi : inv.items[id]? with
  | none => exact Or.inr ⟨.unknown, by simp [Inventory.remove, hi]⟩
  | some item =>
    cases hp : pinned item.2 with
    | true => exact Or.inr ⟨.capacity, by simp [Inventory.remove, hi, hp]⟩
    | false => exact Or.inl ⟨item, rfl, by simp [Inventory.remove, hi, hp]⟩

/-- An insertion inserts its content or refuses. -/
theorem attachBase64_cases (exts : Externals) (create : List UInt8 → Except BlobError DiskBlob)
    (inv : Inventory) (mime encoded : String) :
    (∃ blob, (Op.attachBase64 create mime encoded).content exts = some (mime, blob) ∧
      inv.attachBase64 exts create mime encoded =
        ((inv.insert blob mime .identity "console").1.mapError exts.blobErrorToString,
          (inv.insert blob mime .identity "console").2)) ∨
    ∃ error, inv.attachBase64 exts create mime encoded = (.error error, inv) := by
  unfold Inventory.attachBase64
  split
  · exact Or.inr ⟨_, rfl⟩
  split
  · exact Or.inr ⟨_, rfl⟩
  cases hd : exts.base64Decode encoded with
  | error error => exact Or.inr ⟨_, rfl⟩
  | ok bytes =>
    simp only
    split
    · exact Or.inr ⟨_, rfl⟩
    cases hc : create bytes with
    | error error => exact Or.inr ⟨_, rfl⟩
    | ok blob => exact Or.inl ⟨blob, by simp [Op.content, hd, hc], rfl⟩

theorem register_cases (exts : Externals) (descriptor : Except BlobError DiskBlob)
    (inv : Inventory) (metadata : NewAsset) :
    (∃ blob, (Op.register descriptor metadata).content exts = some (metadata.contentType, blob) ∧
      inv.register descriptor metadata =
        inv.insert blob metadata.contentType metadata.encoding "provider") ∨
    ∃ error, inv.register descriptor metadata = (.error error, inv) := by
  unfold Inventory.register
  split
  · exact Or.inr ⟨_, rfl⟩
  cases descriptor with
  | error error => exact Or.inr ⟨_, rfl⟩
  | ok blob => exact Or.inl ⟨blob, rfl, rfl⟩

/-- **All that one operation can do**: insert its content under a new identifier,
    remove one item, or leave the inventory as it is. -/
theorem Op.run_cases (exts : Externals) (inv : Inventory) (op : Op) :
    (∃ id blob contentType encoding origin, (op.run exts inv).1.newId = some id ∧
      op.content exts = some (contentType, blob) ∧
      inv.insert blob contentType encoding origin = (.ok id, (op.run exts inv).2)) ∨
    (∃ pinned id item, op = .remove pinned id ∧ (op.run exts inv).1 = .removed (.ok ()) ∧
      inv.items[id]? = some item ∧ (op.run exts inv).2 = { inv with
        bytes := wrappingSub inv.bytes item.2.len
        items := inv.items.erase id }) ∨
    ((op.run exts inv).2 = inv ∧ (op.run exts inv).1.newId = none ∧
      (op.run exts inv).1 ≠ .removed (.ok ())) := by
  cases op with
  | attachBase64 create mime encoded =>
    rcases attachBase64_cases exts create inv mime encoded with ⟨blob, hc, he⟩ | ⟨error, he⟩
    · cases hi : (inv.insert blob mime .identity "console").1 with
      | ok id =>
        refine Or.inl ⟨id, blob, mime, .identity, "console", ?_, hc, Prod.ext hi ?_⟩
        · simp [Op.run, he, hi, Except.mapError, Answer.newId]
        · simp [Op.run, he]
      | error error =>
        have := insert_error hi
        exact Or.inr (Or.inr (by simp [Op.run, he, hi, Except.mapError, Answer.newId, this]))
    · exact Or.inr (Or.inr (by simp [Op.run, he, Answer.newId]))
  | register descriptor metadata =>
    rcases register_cases exts descriptor inv metadata with ⟨blob, hc, he⟩ | ⟨error, he⟩
    · cases hi : (inv.insert blob metadata.contentType metadata.encoding "provider").1 with
      | ok id =>
        refine Or.inl ⟨id, blob, _, metadata.encoding, "provider", ?_, hc, Prod.ext hi ?_⟩
        · simp [Op.run, he, hi, Answer.newId]
        · simp [Op.run, he]
      | error error =>
        have := insert_error hi
        exact Or.inr (Or.inr (by simp [Op.run, he, hi, Answer.newId, this]))
    · exact Or.inr (Or.inr (by simp [Op.run, he, Answer.newId]))
  | fetchForCapability id => exact Or.inr (Or.inr ⟨rfl, rfl, by simp [Op.run]⟩)
  | rows => exact Or.inr (Or.inr ⟨rfl, rfl, by simp [Op.run]⟩)
  | remove pinned id =>
    rcases remove_cases pinned inv id with ⟨item, hi, he⟩ | ⟨error, he⟩
    · exact Or.inr (Or.inl ⟨pinned, id, item, rfl, by simp [Op.run, he], hi, by simp [Op.run, he]⟩)
    · exact Or.inr (Or.inr (by simp [Op.run, he, Answer.newId]))

/-! ## What succeeds -/

/-- A blob fits: there is room for it, and an identifier left. -/
structure Inventory.Fits (inv : Inventory) (blob : DiskBlob) : Prop where
  items : inv.items.size < maxItems
  bytes : inv.bytes + blob.len ≤ maxBytes
  id : inv.nextId + 1 < u64Size

theorem insert_ok_iff (inv : Inventory) (blob : DiskBlob) (contentType : String)
    (encoding : AssetEncoding) (origin : String) :
    (∃ id, (inv.insert blob contentType encoding origin).1 = .ok id) ↔ inv.Fits blob := by
  constructor
  · rintro ⟨id, hok⟩
    obtain ⟨hsize, hlen, hbytes, hid, -⟩ := insert_cases (Prod.ext hok rfl)
    refine ⟨hsize, by omega, ?_⟩
    by_contra hlast
    simp only [Inventory.insert, checkedAdd, hlast, if_false] at hok
    split_ifs at hok
  · rintro ⟨hsize, hbytes, hid⟩
    have hroom : ¬(decide (inv.items.size ≥ maxItems) || decide (blob.len > maxBytes) ||
        decide (inv.bytes > maxBytes - blob.len)) = true := by
      simp only [Bool.or_eq_true, decide_eq_true_eq, not_or]
      omega
    refine ⟨inv.nextId + 1, ?_⟩
    simp only [Inventory.insert, checkedAdd, if_neg hroom, if_pos hid]

/-- What an operation succeeds on. -/
def Op.Succeeds (exts : Externals) (inv : Inventory) : Op → Prop
  | attachBase64 create mime encoded =>
    Inventory.validMime mime ∧ byteLen encoded.toList ≤ maxEncoded ∧
      ∃ bytes blob, exts.base64Decode encoded = .ok bytes ∧ bytes.length ≤ maxDecoded ∧
        create bytes = .ok blob ∧ inv.Fits blob
  | register descriptor metadata =>
    metadata.bytes ≤ maxBytes ∧ ∃ blob, descriptor = .ok blob ∧ inv.Fits blob
  | fetchForCapability id => inv.items[id]?.isSome
  | rows => True
  | remove pinned id => ∃ item, inv.items[id]? = some item ∧ pinned item.2 = false

/-- An answer made of an insertion's is an error exactly if the blob does not fit. -/
theorem isError_insert (inv : Inventory) (blob : DiskBlob) (contentType : String)
    (encoding : AssetEncoding) (origin : String) (answer : Except BlobError ℕ → Answer)
    (hok : ∀ id, (answer (.ok id)).isError = false)
    (herror : ∀ error, (answer (.error error)).isError = true) :
    (answer (inv.insert blob contentType encoding origin).1).isError = false ↔ inv.Fits blob := by
  rw [← insert_ok_iff inv blob contentType encoding origin]
  cases (inv.insert blob contentType encoding origin).1 with
  | ok id => simp [hok]
  | error error => simp [herror]

/-- **Exactly when an operation succeeds.** -/
theorem Op.succeeds_iff (exts : Externals) (inv : Inventory) (op : Op) :
    (op.run exts inv).1.isError = false ↔ op.Succeeds exts inv := by
  cases op with
  | attachBase64 create mime encoded =>
    simp only [Op.run, Op.Succeeds, Inventory.attachBase64]
    by_cases hm : Inventory.validMime mime = true
    · by_cases hl : byteLen encoded.toList > maxEncoded
      · simp [hm, hl, Answer.isError, Nat.not_le.2 hl]
      cases hd : exts.base64Decode encoded with
      | error error => simp [hm, hl, Answer.isError]
      | ok bytes =>
        by_cases hb : bytes.length > maxDecoded
        · simp [hm, hl, hb, Answer.isError, Nat.not_le.2 hb]
        cases hc : create bytes with
        | error error => simp [hm, hl, hb, hc, Answer.isError]
        | ok blob =>
          have hinsert := isError_insert inv blob mime .identity "console"
            (fun r => .attached (r.mapError exts.blobErrorToString)) (fun _ => rfl) fun _ => rfl
          simp [hm, hl, hb, hc, Nat.not_lt.1 hl, Nat.not_lt.1 hb, hinsert]
    · simp [hm, Answer.isError]
  | register descriptor metadata =>
    simp only [Op.run, Op.Succeeds, Inventory.register]
    by_cases hb : metadata.bytes > maxBytes
    · simp [hb, Answer.isError, Nat.not_le.2 hb]
    cases descriptor with
    | error error => simp [hb, Answer.isError]
    | ok blob =>
      have hinsert := isError_insert inv blob metadata.contentType metadata.encoding "provider"
        Answer.registered (fun _ => rfl) fun _ => rfl
      simp [hb, Nat.not_lt.1 hb, hinsert]
  | fetchForCapability id =>
    simp only [Op.run, Op.Succeeds, Inventory.fetchForCapability]
    cases inv.items[id]? <;> simp [Answer.isError]
  | rows => simp [Op.run, Op.Succeeds, Answer.isError]
  | remove pinned id =>
    simp only [Op.run, Op.Succeeds, Inventory.remove]
    cases inv.items[id]? with
    | none => simp [Answer.isError]
    | some item => cases hp : pinned item.2 <;> simp [Answer.isError, hp]

/-! ## Refinement -/

/-- The bounded map an inventory is an implementation of. -/
abbrev Shelf := BoundedMap (fun item : AssetRow × DiskBlob => item.2.len) maxBytes maxItems

/-- The inventory holds what the bounded map holds, and its counters are right. -/
structure Refines (inv : Inventory) (m : Shelf) : Prop where
  nextId : inv.nextId = m.last
  bytes : inv.bytes = m.total
  items : inv.items.toList = m.held
  rows : ∀ e ∈ m.held, e.2.1.id = e.1

/-- Two maps in key order with the same entries are the same list. -/
theorem toList_eq_of_sorted {items : Std.TreeMap ℕ (AssetRow × DiskBlob)}
    {l : List (ℕ × (AssetRow × DiskBlob))} (hs : l.Pairwise fun a b => a.1 < b.1)
    (h : ∀ id item, items[id]? = some item ↔ (id, item) ∈ l) : items.toList = l := by
  have ho : items.toList.Pairwise fun a b => a.1 < b.1 :=
    Std.TreeMap.ordered_keys_toList.imp fun h => Nat.compare_eq_lt.1 h
  have irrefl : Std.Irrefl fun a b : ℕ × (AssetRow × DiskBlob) => a.1 < b.1 :=
    ⟨fun a => lt_irrefl a.1⟩
  refine List.Perm.eq_of_pairwise (fun a b _ _ hab hba => absurd hab hba.asymm) ho hs ?_
  refine (List.perm_ext_iff_of_nodup ho.nodup hs.nodup).2 ?_
  intro e
  rw [← h e.1 e.2]
  exact Std.TreeMap.mem_toList_iff_getElem?_eq_some

namespace Refines
variable {inv inv' : Inventory} {m : Shelf}

theorem empty : Refines .default BoundedMap.empty where
  nextId := rfl
  bytes := rfl
  items := rfl
  rows := by simp [BoundedMap.empty]

variable (h : Refines inv m)
include h

theorem getElem?_items (id : ℕ) : inv.items[id]? = m.find id := by
  refine Option.ext ?_
  intro item
  rw [BoundedMap.find_eq_some_iff, ← h.items]
  exact Std.TreeMap.mem_toList_iff_getElem?_eq_some.symm

theorem size_items : inv.items.size = m.held.length := by
  rw [← Std.TreeMap.length_toList, h.items]

theorem bytes_le : inv.bytes ≤ maxBytes := h.bytes.trans_le m.total_le

theorem bytes_lt : inv.bytes < u64Size := h.bytes_le.trans_lt (by decide)

/-- An insertion that succeeds holds its item, exactly. -/
theorem insert {blob : DiskBlob} {contentType origin : String} {encoding : AssetEncoding} {id : ℕ}
    (hi : inv.insert blob contentType encoding origin = (.ok id, inv')) :
    inv.bytes + blob.len < u64Size ∧ id = m.last + 1 ∧ ∃ ht hl,
      Refines inv' (m.insert (newItem id blob contentType encoding origin) ht hl) := by
  obtain ⟨hsize, hlen, hbytes, hid, rfl⟩ := insert_cases hi
  have hb := h.bytes
  have ht : inv.bytes + blob.len ≤ maxBytes := by omega
  have hlt : inv.bytes + blob.len < u64Size := lt_of_le_of_lt ht (by decide)
  rw [h.nextId] at hid
  refine ⟨hlt, hid, by rw [← hb]; exact ht, by rw [← h.size_items]; exact hsize, ?_⟩
  subst hid
  constructor
  · rfl
  · rw [BoundedMap.total_insert, ← hb]
    exact wrappingAdd_eq hlt
  · refine toList_eq_of_sorted (BoundedMap.sorted _) ?_
    intro id item
    rw [← BoundedMap.find_eq_some_iff, BoundedMap.find_insert, Std.TreeMap.getElem?_insert,
      h.getElem?_items]
    simp only [compare_eq_iff_eq, eq_comm (a := m.last + 1)]
  · intro e he
    rcases List.mem_append.1 he with he | he
    · exact h.rows e he
    · obtain rfl := List.mem_singleton.1 he
      rfl

/-- A removal that succeeds lets go of its item, exactly. -/
theorem remove {id : ℕ} {item : AssetRow × DiskBlob} (hi : inv.items[id]? = some item) :
    item.2.len ≤ inv.bytes ∧ Refines { inv with
      bytes := wrappingSub inv.bytes item.2.len
      items := inv.items.erase id } (m.remove id) := by
  rw [h.getElem?_items] at hi
  have hle := BoundedMap.size_le_total hi
  have htotal := BoundedMap.total_remove hi
  rw [← h.bytes] at hle htotal
  refine ⟨hle, h.nextId, ?_, ?_, ?_⟩
  · change wrappingSub inv.bytes item.2.len = _
    rw [wrappingSub_eq h.bytes_lt hle]
    omega
  · refine toList_eq_of_sorted (BoundedMap.sorted _) ?_
    intro id' item'
    rw [← BoundedMap.find_eq_some_iff, BoundedMap.find_remove, Std.TreeMap.getElem?_erase,
      h.getElem?_items]
    simp only [compare_eq_iff_eq, eq_comm (a := id)]
  · exact fun e he => h.rows e (List.mem_filter.1 he).1

end Refines

/-! ## Runs -/

/-- An inventory, and the operations so far with their answers. -/
structure Logged where
  inv : Inventory
  log : List (Op × Answer)

def Logged.start : Logged := ⟨.default, []⟩

section
variable (exts : Externals)

def Logged.step (s : Logged) (op : Op) : Logged :=
  let r := op.run exts s.inv
  ⟨r.2, s.log ++ [(op, r.1)]⟩

/-- What one answered operation changes of what must be held. -/
def ledgerStep (held : ℕ → Option (String × DiskBlob)) (entry : Op × Answer) :
    ℕ → Option (String × DiskBlob) :=
  match entry.2.newId, entry with
  | some id, _ => Function.update held id (entry.1.content exts)
  | none, (.remove _ id, .removed (.ok ())) => Function.update held id none
  | none, _ => held

/-- What must be held: the insertions that succeeded and were not removed since. -/
def ledger (log : List (Op × Answer)) : ℕ → Option (String × DiskBlob) :=
  log.foldl (ledgerStep exts) fun _ => none

/-- The identifiers handed out, in order. -/
def newIds (log : List (Op × Answer)) : List ℕ := log.filterMap fun entry => entry.2.newId

/-- The arithmetic of one operation on the byte total neither overflows nor
    underflows. -/
def Op.Exact (inv : Inventory) (op : Op) : Prop :=
  ((op.run exts inv).1.newId.isSome → ∃ content, op.content exts = some content ∧
    inv.bytes + content.2.len < u64Size ∧
    (op.run exts inv).2.bytes = inv.bytes + content.2.len) ∧
  ∀ pinned id item, op = .remove pinned id → inv.items[id]? = some item →
    item.2.len ≤ inv.bytes ∧
      ((op.run exts inv).1 = .removed (.ok ()) →
        (op.run exts inv).2.bytes = inv.bytes - item.2.len)

/-- The log agrees with a bounded map that the inventory refines. -/
structure Tracked (s : Logged) (m : Shelf) : Prop where
  refines : Refines s.inv m
  held : ∀ id, (m.find id).map (fun item => (item.1.contentType, item.2)) = ledger exts s.log id
  increasing : (newIds s.log).Pairwise (· < ·)
  le_last : ∀ id ∈ newIds s.log, id ≤ m.last

theorem tracked_start : Tracked exts .start .empty where
  refines := .empty
  held _ := rfl
  increasing := .nil
  le_last := by simp [newIds, Logged.start]

variable {exts} {s : Logged} {m : Shelf}

theorem ledger_append (log : List (Op × Answer)) (entry : Op × Answer) :
    ledger exts (log ++ [entry]) = ledgerStep exts (ledger exts log) entry := by
  simp [ledger]

/-- **One operation keeps log and inventory in agreement.** -/
theorem Tracked.step (h : Tracked exts s m) (op : Op) : ∃ m', Tracked exts (s.step exts op) m' := by
  rcases op.run_cases exts s.inv with ⟨id, blob, contentType, encoding, origin, hid, hc, hi⟩ |
    ⟨pinned, id, item, rfl, ha, hi, hinv⟩ | ⟨hinv, hid, ha⟩
  · obtain ⟨-, hlast, ht, hl, hr⟩ := h.refines.insert hi
    have hids : newIds (s.step exts op).log =
        newIds s.log ++ [id] := by
      simp [newIds, Logged.step, hid]
    refine ⟨_, hr, ?_, ?_, ?_⟩
    · intro id'
      simp only [Logged.step, ledger_append, ledgerStep, hid, hc, BoundedMap.find_insert,
        ← hlast, Function.update_apply, ← h.held]
      split_ifs <;> rfl
    · rw [hids]
      refine List.pairwise_append.2 ⟨h.increasing, List.pairwise_singleton _ _, ?_⟩
      intro a ha b hb
      obtain rfl := List.mem_singleton.1 hb
      have := h.le_last a ha
      omega
    · intro a ha
      rw [hids, List.mem_append, List.mem_singleton] at ha
      rw [BoundedMap.last_insert]
      rcases ha with ha | rfl
      · exact (h.le_last a ha).trans (Nat.le_succ _)
      · exact hlast.le
  · have hids : newIds (s.step exts (.remove pinned id)).log =
        newIds s.log := by
      simp [newIds, Logged.step, ha, Answer.newId]
    refine ⟨m.remove id, ?_, ?_, hids ▸ h.increasing, hids ▸ h.le_last⟩
    · simpa only [Logged.step, hinv] using (h.refines.remove hi).2
    · intro id'
      simp only [Logged.step, ledger_append, ledgerStep, ha, Answer.newId,
        BoundedMap.find_remove, Function.update_apply, ← h.held]
      split_ifs <;> rfl
  · have hids : newIds (s.step exts op).log = newIds s.log := by
      simp [newIds, Logged.step, hid]
    refine ⟨m, ?_, ?_, hids ▸ h.increasing, hids ▸ h.le_last⟩
    · simpa only [Logged.step, hinv] using h.refines
    · intro id'
      have hkeep : ledgerStep exts (ledger exts s.log) (op, (op.run exts s.inv).1) =
          ledger exts s.log := by
        unfold ledgerStep
        split
        · simp_all
        · simp_all
        · rfl
      rw [Logged.step, ledger_append, hkeep, h.held]

theorem Tracked.exact (h : Tracked exts s m) (op : Op) : op.Exact exts s.inv := by
  constructor
  · intro hid
    rcases op.run_cases exts s.inv with ⟨id, blob, contentType, encoding, origin, -, hc, hi⟩ |
      ⟨pinned, id, item, rfl, ha, -⟩ | ⟨-, hn, -⟩
    · obtain ⟨hlt, -⟩ := h.refines.insert hi
      obtain ⟨-, -, -, -, he⟩ := insert_cases hi
      exact ⟨_, hc, hlt, by rw [he]; exact wrappingAdd_eq hlt⟩
    · simp [ha, Answer.newId] at hid
    · simp [hn] at hid
  · rintro pinned id item rfl hi
    have hle := (h.refines.remove hi).1
    refine ⟨hle, ?_⟩
    intro ha
    rcases remove_cases pinned s.inv id with ⟨item', hi', he⟩ | ⟨error, he⟩
    · obtain rfl : item = item' := by simpa using hi.symm.trans hi'
      simp only [Op.run, he]
      exact wrappingSub_eq h.refines.bytes_lt hle
    · simp [Op.run, he] at ha

/-- What fails changes nothing. -/
theorem Op.run_error (op : Op) (inv : Inventory) (h : (op.run exts inv).1.isError) :
    (op.run exts inv).2 = inv := by
  rcases op.run_cases exts inv with ⟨id, blob, _, _, _, hid, -⟩ | ⟨_, _, _, -, ha, -⟩ | ⟨he, -⟩
  · cases ha : (op.run exts inv).1 with
    | attached r => cases r <;> simp_all [Answer.newId, Answer.isError]
    | registered r => cases r <;> simp_all [Answer.newId, Answer.isError]
    | fetched r => simp [ha, Answer.newId] at hid
    | listed rows => simp [ha, Answer.newId] at hid
    | removed r => simp [ha, Answer.newId] at hid
  · simp [ha, Answer.isError] at h
  · exact he

theorem Tracked.fetch (h : Tracked exts s m) (id : ℕ) :
    s.inv.fetchForCapability id = ledger exts s.log id := by
  rw [← h.held, Inventory.fetchForCapability, h.refines.getElem?_items]

theorem Tracked.rows (h : Tracked exts s m) :
    s.inv.rows.map AssetRow.id = m.held.map Prod.fst := by
  rw [Inventory.rows, h.refines.items, List.map_map]
  exact List.map_congr_left h.refines.rows

theorem Tracked.mem_rows (h : Tracked exts s m) (id : ℕ) :
    id ∈ s.inv.rows.map AssetRow.id ↔ (ledger exts s.log id).isSome := by
  rw [h.rows, ← h.held, Option.isSome_map, Option.isSome_iff_exists]
  simp only [BoundedMap.find_eq_some_iff]
  simp

end

theorem exists_tracked (exts : Externals) (ops : List Op) :
    ∃ m, Tracked exts (Runs.exec (Logged.step exts) .start ops) m :=
  Runs.exec_of_forall (I := fun s => ∃ m, Tracked exts s m) (fun _ op ⟨_, h⟩ => h.step op)
    ⟨_, tracked_start exts⟩ ops

/-- **The inventory is a bounded map with fresh identifiers.**  After any
    operations its counters are those of what it holds, within bounds and exact;
    identifiers only grow; it holds what the ledger says; an operation succeeds exactly
    where there is room, or its item is held and free; and what fails changes nothing. -/
theorem inventory_refines (exts : Externals) (ops : List Op) :
    let s := Runs.exec (Logged.step exts) .start ops
    (s.inv.bytes = (s.inv.items.toList.map fun e => e.2.2.len).sum ∧ s.inv.bytes ≤ maxBytes ∧
      s.inv.items.size ≤ maxItems) ∧
    (∀ op, Op.Exact exts s.inv op) ∧
    (newIds s.log).Pairwise (· < ·) ∧
    (∀ id, s.inv.fetchForCapability id = ledger exts s.log id) ∧
    ((s.inv.rows.map AssetRow.id).Pairwise (· < ·) ∧
      ∀ id, id ∈ s.inv.rows.map AssetRow.id ↔ (ledger exts s.log id).isSome) ∧
    (∀ op : Op, (op.run exts s.inv).1.isError = false ↔ op.Succeeds exts s.inv) ∧
    ∀ op : Op, (op.run exts s.inv).1.isError → (op.run exts s.inv).2 = s.inv := by
  intro s
  obtain ⟨m, h⟩ := exists_tracked exts ops
  refine ⟨⟨?_, h.refines.bytes_le, ?_⟩, h.exact, h.increasing, h.fetch, ⟨?_, h.mem_rows⟩,
    Op.succeeds_iff exts s.inv, fun op => op.run_error s.inv⟩
  · rw [h.refines.items]
    exact h.refines.bytes
  · rw [h.refines.size_items]
    exact m.length_le
  · rw [h.rows]
    exact List.pairwise_map.2 m.sorted

/-- Two assets of a provider, of which the first is fetched and removed. -/
def Sample.stocked : List Op :=
  [.register (.ok ⟨[1, 2]⟩) ⟨"image/png", .identity, 2⟩,
    .register (.ok ⟨[3]⟩) ⟨"text/plain", .identity, 1⟩, .fetchForCapability 1,
    .remove (fun _ => false) 1]

theorem inventory_refines_sample :
    let s := Runs.exec (Logged.step .plain) .start Sample.stocked
    newIds s.log = [1, 2] ∧ s.inv.fetchForCapability 1 = none ∧
      s.inv.fetchForCapability 2 = some ("text/plain", ⟨[3]⟩) ∧
      ¬(Op.remove (fun _ => true) 2).Succeeds .plain s.inv := by
  obtain ⟨-, -, -, hfetch, -, hsucceeds, -⟩ := inventory_refines .plain Sample.stocked
  refine ⟨by decide, (hfetch 1).trans rfl, (hfetch 2).trans rfl, fun h => ?_⟩
  cases (hsucceeds _).2 h

end DekoponConsole
