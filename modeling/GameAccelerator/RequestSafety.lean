import GameAccelerator.HashInvariant
import GameAccelerator.HashLock
import GameAccelerator.Requests

namespace GameAccelerator.RequestSafety

open CString Platform Buckets HashEngine HashContents HashLock HashInvariant Tokens KvStore Requests

variable {al : Alloc} {t t' : HashTable}

theorem call_sound (h : Sound t) (hc : Call t t') : Sound t' := by
  obtain ⟨al, op, r, he⟩ := hc
  cases op with
  | set key value =>
      obtain ⟨c, hu⟩ := map_result he fun _ => rfl
      exact put_sound h hu
  | get key =>
      obtain ⟨c, hu⟩ := map_result he fun _ => rfl
      obtain ⟨lock, rfl⟩ := get_cases hu
      exact sound_lock h lock
  | delete key =>
      obtain ⟨c, hu⟩ := map_result he fun _ => rfl
      exact delete_sound h hu
  | modify key value =>
      obtain ⟨c, hu⟩ := map_result he fun _ => rfl
      exact modify_sound h hu

theorem calls_sound (h : Relation.ReflTransGen Call (kvstoreHashCreate fun _ => []) t) : Sound t := by
  induction h with
  | refl => exact empty_sound
  | tail _ hc ih => exact call_sound ih hc

/-- What the engine needs to come back from a request. -/
def Served (al : Alloc) (t : HashTable) : Request → Prop
  | .set key _ => t.lock = false ∧ ((nodeOf t key).isSome ∨ al.node ∧ al.key ∧ al.value)
  | .get _ | .del _ => t.lock = false
  | .mod key _ => (nodeOf t key).isSome → al.value

theorem map_isOk {α β ε : Type} (x : Except ε α) (f : α → β) : (x.map f).isOk = x.isOk := by
  cases x <;> rfl

theorem put_isOk (hw : WellPlaced t) (key value : CStr) :
    (putKvHashtable () .exclusive al t (some key) (some value)).isOk ↔
      t.lock = false ∧ ((nodeOf t key).isSome ∨ al.node ∧ al.key ∧ al.value) := by
  cases hl : t.lock with
  | true => simp [putKvHashtable, lock_held hl, bind, Except.bind, Except.isOk, Except.toBool]
  | false =>
      obtain ⟨hp, hn⟩ := prepared_spec al hw
      rw [put_eq, lock_free hl, Except.bind, putPrepared, ← hn key, ← nodeOf_bucket hp]
      rcases overwrite_spec key (if al.value then some value else none)
        ((prepared al t).nodes (index (prepared al t) key)) with ⟨hf, ho⟩ | ⟨pre, n, post, hc, hk, hf, ho⟩
      · rw [ho, hf, createNode]
        by_cases hal : al.node ∧ al.key ∧ al.value <;> simp [hal, Except.isOk, Except.toBool]
      · rw [ho, hf]
        simp [Except.isOk, Except.toBool]

theorem get_isOk (key : CStr) : (getKvHashtable .exclusive t (some key)).isOk ↔ t.lock = false := by
  cases hl : t.lock with
  | true => simp [getKvHashtable, lock_held hl, bind, Except.bind, Except.isOk, Except.toBool]
  | false => simp [getKvHashtable, lock_free hl, bind, Except.bind, Except.isOk, Except.toBool]

theorem delete_isOk (key : CStr) : (deleteKvHashtable .exclusive t (some key)).isOk ↔ t.lock = false := by
  cases hl : t.lock with
  | true => simp [deleteKvHashtable, lock_held hl, bind, Except.bind, Except.isOk, Except.toBool]
  | false =>
      obtain ⟨lock, hd⟩ := delete_eq (lock_free hl) key
      rw [hd]
      cases unlinkNext key (t.nodes (index t key)) <;> simp [Except.isOk, Except.toBool]

theorem modify_isOk (hw : WellPlaced t) (key value : CStr) :
    (kvsHashModify al t (some key) (some value)).isOk ↔ ((nodeOf t key).isSome → al.value) := by
  rw [kvsHashModify, ← nodeOf_bucket hw]
  rcases overwrite_spec key (some value) (t.nodes (index t key)) with ⟨hf, ho⟩ | ⟨pre, n, post, hc, hk, hf, ho⟩
  · rw [ho, hf]
    simp [Except.isOk, Except.toBool]
  · rw [ho, hf]
    dsimp only
    split_ifs with hal <;> simp [hal, Except.isOk, Except.toBool]

theorem execute_isOk (hw : WellPlaced t) (r : Request) :
    (execute (hashEngine .exclusive al) t r).isOk ↔ Served al t r := by
  cases r with
  | set key value => rw [execute, map_isOk]; exact put_isOk hw key value
  | get key => rw [execute, map_isOk]; exact get_isOk key
  | del key => rw [execute, map_isOk]; exact delete_isOk key
  | mod key value => rw [execute, map_isOk]; exact modify_isOk hw key value

/-- What the tokeniser sees of a segment. -/
def text (seg : Bytes) : Bytes := seg.takeWhile (· ≠ 0)

theorem text_noNul (seg : Bytes) : 0 ∉ text seg := fun h => by
  simpa using List.mem_takeWhile_imp h

theorem text_split (seg : Bytes) : ∃ rest, seg = text seg ∨ seg = text seg ++ 0 :: rest := by
  induction seg with
  | nil => exact ⟨[], .inl rfl⟩
  | cons c seg ih =>
      by_cases hc : c = 0
      · exact ⟨seg, .inr (by simp [text, hc])⟩
      · obtain ⟨rest, hrest⟩ := ih
        have ht : text (c :: seg) = c :: text seg := by simp [text, hc]
        rw [ht]
        exact ⟨rest, hrest.imp (congrArg (c :: ·)) (congrArg (c :: ·))⟩

theorem answer_isOk (hw : WellPlaced t) (strs : List CStr) :
    (answer (hashEngine .exclusive al) t strs).isOk ↔
      strs = [] ∨ ∃ r, Request.ofWords strs = some r ∧ Served al t r := by
  cases strs with
  | nil => simp [answer, Except.isOk, Except.toBool]
  | cons c args =>
      rw [answer]
      cases hr : Request.ofWords (c :: args) with
      | none => simp [Except.isOk, Except.toBool]
      | some r =>
          dsimp only
          rw [map_isOk, execute_isOk hw]
          simp

/-- The request comes back exactly if the segment has no word, or has at most
128 words and begins with a command and all its arguments, and the engine can
serve the command. -/
theorem request_finishes_iff (h : Relation.ReflTransGen Call (kvstoreHashCreate fun _ => []) t) (al : Alloc) (seg : Bytes)
    (hseg : 1 ≤ seg.length ∧ seg.length ≤ 1024) :
    (∃ item t', kvstoreRequest (hashEngine .exclusive al) (received seg) t = .ok (item, t')) ↔
      words (text seg) = [] ∨
        (words (text seg)).length ≤ 128 ∧ ∃ r, decode (text seg) = some r ∧ Served al t r := by
  have hw := (calls_sound h).placed
  obtain ⟨rest, hrest⟩ := text_split seg
  have hread := serverReader_text (hashEngine .exclusive al) hseg.2 hrest (text_noNul seg) t
  have hok : (∃ item t', kvstoreRequest (hashEngine .exclusive al) (received seg) t = .ok (item, t')) ↔
      (serverReader (hashEngine .exclusive al) t seg).isOk := by
    rw [serverReader_eq_map, map_isOk]
    cases kvstoreRequest (hashEngine .exclusive al) (received seg) t with
    | error e => simp [Except.isOk, Except.toBool]
    | ok o => simpa [Except.isOk, Except.toBool] using ⟨o.1, o.2, rfl⟩
  rw [hok, hread]
  split_ifs with hmany
  · have hmany' : ¬ (words (text seg)).length ≤ 128 := Nat.not_le.mpr hmany
    have hne : words (text seg) ≠ [] := fun he => by
      rw [he] at hmany
      exact absurd hmany (by decide)
    simp [hmany', hne, Except.isOk, Except.toBool]
  · have hfew : (words (text seg)).length ≤ 128 := Nat.not_lt.mp hmany
    rw [map_isOk, answer_isOk hw, List.map_eq_nil_iff]
    simp [hfew, decode]

/-- An unknown command word runs into the assertion, and a command without its
argument into a token that was never set. -/
theorem bad_requests_fault :
    kvstoreRequest (hashEngine .exclusive .succeeds) (received (ascii "PING")) (kvstoreHashCreate fun _ => []) =
        .error .assertFailed ∧
      kvstoreRequest (hashEngine .exclusive .succeeds) (received (ascii "GET")) (kvstoreHashCreate fun _ => []) =
        .error (.uninitToken 1) := by
  constructor <;> refine map_error ((serverReader_eq_map _ _ _).symm.trans ?_)
  · rw [serverReader_words _ (by decide) (by decide)]
    rfl
  · rw [serverReader_words _ (by decide) (by decide)]
    rfl

theorem get_on_fresh_finishes :
    ∃ item t', kvstoreRequest (hashEngine .exclusive .succeeds) (received (ascii "GET lobby"))
      (kvstoreHashCreate fun _ => []) = .ok (item, t') := by
  refine (request_finishes_iff .refl .succeeds (ascii "GET lobby") (by decide)).mpr (.inr ⟨by decide, ?_⟩)
  exact ⟨.get ⟨ascii "lobby", by decide⟩, rfl, rfl⟩

end GameAccelerator.RequestSafety
