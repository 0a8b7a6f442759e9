import GameAccelerator.HashServer
import GameAccelerator.KvClient
import GameAccelerator.RequestText

namespace GameAccelerator.ClientStore

open CString Platform Buckets HashEngine HashContents HashLock HashServer KvStore Requests RequestText ReferenceMap KvClient

/-- The server process. Its one thread runs the engine, so a call that waits
for the mutex waits for ever. -/
structure Server where
  table : HashTable
  stuck : Bool

def boot : Server := ⟨kvstoreHashCreate fun _ => [], false⟩

/-- A command that arrives in one segment, and the bytes that are sent back. -/
def exchange (s : Server) (cmd : Bytes) : Bytes × Server :=
  if s.stuck then ([], s)
  else
    match serverReader (hashEngine .exclusive .succeeds) s.table cmd with
    | .ok (reply, t) => (reply, ⟨t, false⟩)
    | .error _ => ([], { s with stuck := true })

/-- The server after commands of any clients. -/
def run (s : Server) (cmds : List Bytes) : Server := cmds.foldl (fun s cmd => (exchange s cmd).2) s

/-- The command deletes a key whose bucket is empty. -/
def leaks (s : Server) (cmd : Bytes) : Bool :=
  match decode cmd with
  | some (.del key) => (s.table.nodes (index s.table key)).isEmpty
  | _ => false

def leakFree : Server → List Bytes → Bool
  | _, [] => true
  | s, cmd :: cmds => !leaks s cmd && leakFree (exchange s cmd).2 cmds

/-- The keys that a request writes. -/
def writes : Request → Option CStr
  | .set key _ | .del key | .mod key _ => some key
  | .get _ => none

/-- The server holds a map of tokens; it is stuck with its mutex held only. -/
structure Keeps (s : Server) (m : KvMap) : Prop where
  table : Represents s.table m
  short : Short m
  token : ∀ k v, m k = some v → IsToken v
  held : s.stuck = true → s.table.lock = true

variable {s : Server} {m : KvMap} {cmd : Bytes} {r : Request}

theorem boot_keeps : Keeps boot fun _ => none := ⟨represents_empty, nofun, nofun, nofun⟩

theorem leaks_eq (hr : decode cmd = some r) : leaks s cmd = true ↔ DeletesFromEmptyBucket s.table (opOf r) := by
  rw [leaks, hr]
  cases r <;> simp [opOf, DeletesFromEmptyBucket]

/-- With the mutex free, the server answers as the map. -/
theorem exchange_free (h : Keeps s m) (hl : s.table.lock = false) (hw : WellFormed cmd) (hr : decode cmd = some r) :
    (exchange s cmd).1 = (reference m r).1 ∧ Keeps (exchange s cmd).2 (reference m r).2 ∧
      ((exchange s cmd).2.table.lock = false ↔ leaks s cmd = false) := by
  have hstuck : s.stuck = false := by
    cases hs : s.stuck with
    | false => rfl
    | true => exact absurd (h.held hs) (by simp [hl])
  obtain ⟨t, he, ht⟩ := execute_spec (hash_implementsAt (lock_free hl) h.table) h.short r
  have hex : exchange s cmd = ((reference m r).1, ⟨t, false⟩) := by
    rw [exchange, hstuck, serverReader_eq _ hw hr, he]
    rfl
  have htok := tokens_of_decode hw.noNul hr
  have hvalue : ValueOf IsToken r := by
    cases r with
    | set key value | mod key value => exact htok.2
    | get key | del key => trivial
  rw [hex]
  refine ⟨rfl, ⟨ht, reference_short h.short (decode_shortValue hw hr), reference_values h.token hvalue, nofun⟩, ?_⟩
  rw [execute_lock hl he, ← leaks_eq hr, Bool.not_eq_true]

/-- Once the mutex is held, it stays so, and nothing but a MOD is answered. -/
theorem exchange_held (hl : s.table.lock = true) (hw : WellFormed cmd) (hr : decode cmd = some r) :
    (exchange s cmd).2.table.lock = true ∧ ((∀ key value, r ≠ .mod key value) → (exchange s cmd).1 = []) := by
  rw [exchange, serverReader_eq _ hw hr]
  split_ifs
  · exact ⟨hl, fun _ => rfl⟩
  · rcases execute_held .succeeds hl r with hb | ⟨key, value, rfl, hmod⟩
    · rw [hb]
      exact ⟨hl, fun _ => rfl⟩
    · cases he : execute (hashEngine .exclusive .succeeds) s.table (.mod key value) with
      | error e => exact ⟨hl, fun hne => absurd rfl (hne key value)⟩
      | ok o => exact ⟨hmod o.1 o.2 he, fun hne => absurd rfl (hne key value)⟩

/-- The commands leave the binding of `k` alone. -/
def Spares (k : CStr) (cmds : List Bytes) : Prop :=
  ∀ cmd ∈ cmds, (decode cmd).bind writes ≠ some k

instance (k : CStr) (cmds : List Bytes) : Decidable (Spares k cmds) :=
  inferInstanceAs (Decidable (∀ cmd ∈ cmds, (decode cmd).bind writes ≠ some k))

theorem reference_spares {k : CStr} (h : writes r ≠ some k) : (reference m r).2 k = m k := by
  cases r with
  | set key value => exact Function.update_of_ne (fun he => h (congrArg some he.symm)) _ _
  | get key => rfl
  | del key =>
      rw [reference]
      split_ifs
      · exact Function.update_of_ne (fun he => h (congrArg some he.symm)) _ _
      · rfl
  | mod key value =>
      rw [reference]
      split_ifs
      · exact Function.update_of_ne (fun he => h (congrArg some he.symm)) _ _
      · rfl

theorem run_held (hl : s.table.lock = true) {cmds : List Bytes} (hcmds : ∀ cmd ∈ cmds, WellFormed cmd) :
    (run s cmds).table.lock = true := by
  induction cmds generalizing s with
  | nil => exact hl
  | cons cmd cmds ih =>
      obtain ⟨hw, hcmds⟩ := List.forall_mem_cons.mp hcmds
      obtain ⟨r, hr⟩ := decode_of_wellFormed hw
      exact ih (exchange_held hl hw hr).1 hcmds

/-- The mutex is free after a run that found it free exactly if no command has
leaked it, and then the server holds the map that the commands have made. -/
theorem run_free (h : Keeps s m) (hl : s.table.lock = false) {cmds : List Bytes} (hcmds : ∀ cmd ∈ cmds, WellFormed cmd) :
    ((run s cmds).table.lock = false ↔ leakFree s cmds = true) ∧
      (leakFree s cmds = true → ∃ m', Keeps (run s cmds) m' ∧ ∀ k, Spares k cmds → m' k = m k) := by
  induction cmds generalizing s m with
  | nil => exact ⟨by simp [run, leakFree, hl], fun _ => ⟨m, h, fun _ _ => rfl⟩⟩
  | cons cmd cmds ih =>
      obtain ⟨hw, hcmds⟩ := List.forall_mem_cons.mp hcmds
      obtain ⟨r, hr⟩ := decode_of_wellFormed hw
      obtain ⟨-, hk, hlock⟩ := exchange_free h hl hw hr
      cases hleak : leaks s cmd with
      | true =>
          have hheld : (exchange s cmd).2.table.lock = true := by
            rw [← Bool.not_eq_false, hlock, hleak]
            decide
          have hrun : (run s (cmd :: cmds)).table.lock = true := run_held hheld hcmds
          simp [hrun, leakFree, hleak]
      | false =>
          obtain ⟨hiff, hex⟩ := ih hk (hlock.mpr hleak) hcmds
          have hfree : leakFree s (cmd :: cmds) = leakFree (exchange s cmd).2 cmds := by simp [leakFree, hleak]
          rw [hfree]
          refine ⟨hiff, fun hc => ?_⟩
          obtain ⟨m', hk', hm'⟩ := hex hc
          refine ⟨m', hk', fun k hs => ?_⟩
          rw [hm' k fun c hc => hs c (List.mem_cons_of_mem _ hc)]
          apply reference_spares
          simpa [hr] using hs cmd List.mem_cons_self

/-- The network takes the command to the server and the reply, if there is one,
back whole. -/
def Delivered (s : Server) (a : Attempt) (cmd : Bytes) : Prop :=
  (exchange s cmd).1 ≠ [] → a.delivers (exchange s cmd).1.length

variable {c : Client} {a a' : Attempt} {k v : CStr}

theorem setCommand_eq (k v : CStr) : setCommand k.bytes v.bytes = spell (.set k v) := by
  have hset : ascii "SET " = ascii "SET" ++ [32] := by decide
  have hsp : ascii " " = [32] := by decide
  rw [setCommand, spell, hset, hsp]
  simp only [List.append_assoc, List.cons_append, List.nil_append]

theorem getCommand_eq (k : CStr) : getCommand k.bytes = spell (.get k) := by
  have hget : ascii "GET " = ascii "GET" ++ [32] := by decide
  rw [getCommand, spell, hget]
  simp only [List.append_assoc, List.singleton_append]

/-- The value ends in neither CR nor LF. -/
def EndsPlain (v : Bytes) : Prop := v.getLast? ≠ some 13 ∧ v.getLast? ≠ some 10

instance (v : Bytes) : Decidable (EndsPlain v) := inferInstanceAs (Decidable (v.getLast? ≠ some 13 ∧ v.getLast? ≠ some 10))

theorem stripNewlines_eq {reply : Bytes} (h : EndsPlain reply) : stripNewlines reply = reply := by
  rw [EndsPlain, ← List.head?_reverse] at h
  rw [stripNewlines]
  cases hr : reply.reverse with
  | nil => rw [List.reverse_eq_nil_iff.mp hr]; rfl
  | cons b l =>
      have hb : (b = 13 || b = 10) = false := by
        rw [hr] at h
        simpa using h
      rw [List.dropWhile_cons_of_neg (by simpa using hb), ← hr, List.reverse_reverse]

/-- The binding of a key, over all buckets. -/
def stored (s : Server) (k : CStr) : Option CStr := (nodeOf s.table k).bind HashNode.value

theorem stored_eq (h : Keeps s m) (k : CStr) : stored s k = m k := by
  rw [stored, h.table.2 k]
  cases m k <;> rfl

theorem set_held (hl : s.table.lock = true) (hc : Clean c) (hw : WellFormed (spell (.set k v))) (hk : IsToken k)
    (hv : IsToken v) : (KvClient.set exchange s c a a' k.bytes v.bytes).1 = false := by
  have hr : decode (spell (.set k v)) = some (.set k v) := decode_spell ⟨hk, hv⟩
  obtain ⟨hheld, hsilent⟩ := exchange_held hl hw hr
  have hnone := requestWithRetry_silent a a' hc (hsilent (by simp)) ((exchange_held hheld hw hr).2 (by simp))
  rw [KvClient.set, setCommand_eq, hnone]
  rfl

theorem set_free (h : Keeps s m) (hl : s.table.lock = false) (hc : Clean c) (hu : Usable c)
    (hw : WellFormed (spell (.set k v))) (hk : IsToken k) (hv : IsToken v)
    (hd : Delivered s a (setCommand k.bytes v.bytes)) :
    (KvClient.set exchange s c a a' k.bytes v.bytes).2.2 = (exchange s (spell (.set k v))).2 := by
  have hreply := (exchange_free h hl hw (decode_spell (show TokenArgs (.set k v) from ⟨hk, hv⟩))).1
  have hne : (exchange s (spell (.set k v))).1 ≠ [] := by
    rw [hreply]
    exact List.cons_ne_nil _ _
  rw [setCommand_eq] at hd
  rw [KvClient.set, setCommand_eq, request_delivered hc hu hne (hd hne)]

/-- With the mutex free, the client reads what is stored, and NO EXIST tells a
missing key from every value. -/
theorem get_free (h : Keeps s m) (hl : s.table.lock = false) (hc : Clean c) (hu : Usable c)
    (hw : WellFormed (spell (.get k))) (hk : IsToken k) (hd : Delivered s a (getCommand k.bytes)) :
    (KvClient.get exchange s c a a' k.bytes).1 = (m k).map fun v => stripNewlines v.bytes := by
  have hr : decode (spell (.get k)) = some (.get k) := decode_spell hk
  have hreply := (exchange_free h hl hw hr).1
  rw [getCommand_eq] at hd
  have hne : (exchange s (spell (.get k))).1 ≠ [] := by
    rw [hreply, reference]
    cases hm : m k with
    | none => exact List.cons_ne_nil _ _
    | some v => exact (h.token k v hm).1
  rw [KvClient.get, getCommand_eq, request_delivered hc hu hne (hd hne), hreply, reference]
  cases hm : m k with
  | none => rfl
  | some v =>
      have hv : v.bytes ≠ ascii "NO EXIST" := fun he => (h.token k v hm).2 (by rw [he]; decide)
      simp [getReply, hv]

theorem get_held (hl : s.table.lock = true) (hc : Clean c) (hw : WellFormed (spell (.get k))) (hk : IsToken k) :
    (KvClient.get exchange s c a a' k.bytes).1 = none := by
  have hr : decode (spell (.get k)) = some (.get k) := decode_spell hk
  obtain ⟨hheld, hsilent⟩ := exchange_held hl hw hr
  have hnone := requestWithRetry_silent a a' hc (hsilent (by simp))
    ((exchange_held hheld hw hr).2 (by simp))
  rw [KvClient.get, getCommand_eq, hnone]

theorem wellFormed_getCommand (hk : IsToken k) (hlen : (getCommand k.bytes).length ≤ 1023) :
    WellFormed (spell (.get k)) :=
  wellFormed_spell hk (getCommand_eq k ▸ hlen)

/-- A call of a client that starts with nothing unread, can reach the server and
has its command and the reply delivered whole. -/
structure Served (s : Server) (c : Client) (a : Attempt) (cmd : Bytes) : Prop where
  clean : Clean c
  usable : Usable c
  delivered : Delivered s a cmd

/-- A `set` that comes back with true has found the mutex free and has stored the
value. -/
theorem set_stores {c₀ : Client} {s' : Server} (hs : s.table.lock = false → ∃ m, Keeps s m) (hk : IsToken k)
    (hv : IsToken v) (hw : WellFormed (spell (.set k v))) (hc : Served s c a (setCommand k.bytes v.bytes))
    (hset : KvClient.set exchange s c a a' k.bytes v.bytes = (true, c₀, s')) :
    s'.table.lock = false ∧ ∃ m, Keeps s' m ∧ m k = some v := by
  have hl : s.table.lock = false := by
    cases hl : s.table.lock with
    | false => rfl
    | true => exact absurd ((set_held hl hc.clean hw hk hv).symm.trans (congrArg Prod.fst hset)) Bool.false_ne_true
  obtain ⟨m, hm⟩ := hs hl
  have hstate : s' = (exchange s (spell (.set k v))).2 :=
    (congrArg (·.2.2) hset).symm.trans (set_free hm hl hc.clean hc.usable hw hk hv hc.delivered)
  have hr : decode (spell (.set k v)) = some (.set k v) := decode_spell ⟨hk, hv⟩
  obtain ⟨-, hkeeps, hlock⟩ := exchange_free hm hl hw hr
  have hnoleak : leaks s (spell (.set k v)) = false := by rw [leaks, hr]
  rw [hstate]
  exact ⟨hlock.mpr hnoleak, _, hkeeps, Function.update_self ..⟩

/-- The value is still read after commands that spare the key, unless one of
them has left the mutex held. -/
theorem get_after {after : List Bytes} (hl : s.table.lock = false) (hs : Keeps s m) (hv : m k = some v)
    (hplain : EndsPlain v.bytes) (hafter : ∀ cmd ∈ after, WellFormed cmd) (hspares : Spares k after) (hk : IsToken k)
    (hw : WellFormed (spell (.get k))) (hc : Served (run s after) c a (getCommand k.bytes)) :
    (KvClient.get exchange (run s after) c a a' k.bytes).1 = some v.bytes ↔ leakFree s after = true := by
  obtain ⟨hlock, hkeeps⟩ := run_free hs hl hafter
  constructor
  · intro hgot
    apply hlock.mp
    cases hl : (run s after).table.lock with
    | false => rfl
    | true =>
        rw [get_held hl hc.clean hw hk] at hgot
        cases hgot
  · intro hfree
    obtain ⟨m', hm', hsame⟩ := hkeeps hfree
    rw [get_free hm' (hlock.mpr hfree) hc.clean hc.usable hw hk hc.delivered, (hsame k hspares).trans hv, Option.map_some,
      stripNewlines_eq hplain]

theorem missing_iff {cmds : List Bytes} (hl : s.table.lock = false) (hs : Keeps s m)
    (hcmds : ∀ cmd ∈ cmds, WellFormed cmd) (hk : IsToken k) (hw : WellFormed (spell (.get k)))
    (hc : Served (run s cmds) c a (getCommand k.bytes)) :
    ((KvClient.get exchange (run s cmds) c a a' k.bytes).1 = none ↔ stored (run s cmds) k = none) ↔
      leakFree s cmds = true ∨ stored (run s cmds) k = none := by
  obtain ⟨hlock, hkeeps⟩ := run_free hs hl hcmds
  cases hfree : leakFree s cmds with
  | true =>
      obtain ⟨m', hm', -⟩ := hkeeps hfree
      rw [get_free hm' (hlock.mpr hfree) hc.clean hc.usable hw hk hc.delivered, stored_eq hm', Option.map_eq_none_iff]
      simp
  | false =>
      have hheld : (run s cmds).table.lock = true := by
        rw [← Bool.not_eq_false, hlock, hfree]
        decide
      rw [get_held hheld hc.clean hw hk]
      simp

/-- What a client has set is what any client gets, as long as no command deletes
from an empty bucket; and so long a key is reported missing exactly if it is not
stored. -/
theorem client_round_trip_iff (before : List Bytes) (hbefore : ∀ cmd ∈ before, WellFormed cmd) (k : CStr) (hk : IsToken k) :
    (∀ v, IsToken v → EndsPlain v.bytes → (setCommand k.bytes v.bytes).length ≤ 1023 →
      ∀ c a a' c₀ s, Served (run boot before) c a (setCommand k.bytes v.bytes) →
      KvClient.set exchange (run boot before) c a a' k.bytes v.bytes = (true, c₀, s) →
      ∀ after, (∀ cmd ∈ after, WellFormed cmd) → Spares k after →
      ∀ c₁ b b', Served (run s after) c₁ b (getCommand k.bytes) →
      ((KvClient.get exchange (run s after) c₁ b b' k.bytes).1 = some v.bytes ↔ leakFree s after = true)) ∧
    ((getCommand k.bytes).length ≤ 1023 →
      ∀ c a a', Served (run boot before) c a (getCommand k.bytes) →
      (((KvClient.get exchange (run boot before) c a a' k.bytes).1 = none ↔ stored (run boot before) k = none) ↔
        leakFree boot before = true ∨ stored (run boot before) k = none)) := by
  refine ⟨fun v hv hplain hlen c a a' c₀ s hc hset after hafter hspares c₁ b b' hc₁ => ?_, fun hlen c a a' hc => ?_⟩
  · have hw : WellFormed (spell (.set k v)) := wellFormed_spell ⟨hk, hv⟩ (setCommand_eq k v ▸ hlen)
    have hr : decode (spell (.set k v)) = some (.set k v) := decode_spell ⟨hk, hv⟩
    obtain ⟨hlock, hkeeps⟩ := run_free boot_keeps rfl hbefore
    have hfree : (run boot before).table.lock = false → ∃ m, Keeps (run boot before) m := fun hl =>
      (hkeeps (hlock.mp hl)).imp fun _ => And.left
    obtain ⟨hl, m, hm, hmv⟩ := set_stores hfree hk hv hw hc hset
    exact get_after hl hm hmv hplain hafter hspares hk (wellFormed_key hw hr).2 hc₁
  · exact missing_iff rfl boot_keeps hbefore hk (wellFormed_getCommand hk hlen) hc

/-- A client of a server at port 9096 that is not connected yet. -/
def gateway : Client := ⟨9096, none⟩

/-- The reply comes in one piece. -/
def prompt : Attempt := ⟨true, true, [.silence, .data 256, .silence]⟩

/-- A client sets Name to SUYANG. -/
def naming : Bool × Client × Server :=
  KvClient.set exchange (run boot []) gateway prompt prompt name.bytes nameValue.bytes

theorem name_read_back :
    (KvClient.get exchange (run naming.2.2 [ascii "SET Other 1", ascii "DEL Other"]) gateway prompt prompt name.bytes).1 =
      some (ascii "SUYANG") := by
  have hpair : ∀ o : Bool × Client × Server, o.1 = true → o = (true, o.2.1, o.2.2) := by
    rintro ⟨_, c, s⟩ rfl
    rfl
  have h := (client_round_trip_iff [] (by simp) name (by decide)).1 nameValue (by decide) (by decide) (by decide)
    gateway prompt prompt _ naming.2.2 ⟨rfl, .inr (by decide), fun _ => by decide +kernel⟩
    (hpair naming (by decide +kernel)) [ascii "SET Other 1", ascii "DEL Other"] (by decide) (by decide)
    gateway prompt prompt ⟨rfl, .inr (by decide), fun _ => by decide +kernel⟩
  exact h.mpr (by decide +kernel)

/-- One DEL of a key whose bucket is empty, and the key that is stored is
reported missing. -/
theorem stored_name_missing :
    naming.1 = true ∧ stored (run naming.2.2 [ascii "DEL Other"]) name = some nameValue ∧
      (KvClient.get exchange (run naming.2.2 [ascii "DEL Other"]) gateway prompt prompt name.bytes).1 = none := by
  decide +kernel

end GameAccelerator.ClientStore
