-- The servers of `--servers` and their addresses (`hash_code`, `hash_enter`, `hash_lookup` and
-- `core_addr_intern` in `core.c`, `conn_add_servers` in `conn.c`). The hash runs in 64 bits and its
-- result is cut to an `int`. An entry is never taken out of the table.
import Httperf.Clib
import Httperf.Lib.Probing

namespace Httperf.Servers

open Lib.Probing

def HASH_TABLE_SIZE : Nat := 1024

/-! ## The hash -/

/-- One turn of the loop of `hash_code`. -/
def hash_step (h : UInt64) (ch : Byte) : UInt64 :=
  let h := (h <<< 4) + ch.toUInt64
  let g := h &&& 0xf0000000
  if g ≠ 0 then (h ^^^ (g >>> 24)) &&& ~~~g else h

def hash_code (server : List Byte) (port : Nat) : Int :=
  ((server.foldl hash_step (UInt64.ofNat port)).toBitVec.setWidth 32).toInt

/-- `hash_code (server, server_len, port) % HASH_TABLE_SIZE`. -/
def hash_index (server : List Byte) (port : Nat) : Int :=
  (hash_code server port).tmod HASH_TABLE_SIZE

/-- A turn leaves bit 31 clear. A carry can go to bit 32, and the bits from there on never come
down. -/
theorem hash_step_sign (h : UInt64) (ch : Byte) : (hash_step h ch).toBitVec.getLsbD 31 = false := by
  unfold hash_step
  dsimp only
  generalize (h <<< 4) + ch.toUInt64 = x
  have hmask : (0xf0000000 : UInt64).toBitVec.getLsbD 31 = true := by decide
  have hg : (x &&& 0xf0000000).toBitVec.getLsbD 31 = x.toBitVec.getLsbD 31 := by
    rw [UInt64.toBitVec_and, BitVec.getLsbD_and, hmask, Bool.and_true]
  split_ifs with hne
  · -- what is mixed in comes from bit 55 of the mask
    have hfar : ((x &&& 0xf0000000) >>> 24).toBitVec.getLsbD 31 = false := by
      have hhigh : (0xf0000000 : UInt64).toBitVec.getLsbD 55 = false := by decide
      have hshift : (24 : UInt64).toBitVec % 64 = 24#64 := by decide
      rw [UInt64.toBitVec_shiftRight, hshift, BitVec.ushiftRight_eq', BitVec.getLsbD_ushiftRight,
        UInt64.toBitVec_and, BitVec.getLsbD_and]
      exact Bool.and_eq_false_imp.mpr fun _ => hhigh
    rw [UInt64.toBitVec_and, BitVec.getLsbD_and, UInt64.toBitVec_xor, BitVec.getLsbD_xor, hfar,
      UInt64.toBitVec_not, BitVec.getLsbD_not, hg]
    cases x.toBitVec.getLsbD 31 <;> rfl
  · rw [not_not] at hne
    rw [← hg, hne]
    rfl

theorem hash_code_nonneg (server : List Byte) {port : Nat} (hport : port ≤ 65535) :
    0 ≤ hash_code server port := by
  have hsign : (server.foldl hash_step (UInt64.ofNat port)).toBitVec.getLsbD 31 = false := by
    rcases List.eq_nil_or_concat server with rfl | ⟨front, ch, rfl⟩
    · change (BitVec.ofNat 64 port).getLsbD 31 = false
      rw [BitVec.getLsbD_ofNat, Nat.testBit_lt_two_pow (show port < 2 ^ 31 by omega),
        Bool.and_false]
    · rw [List.concat_eq_append, List.foldl_append]
      exact hash_step_sign _ _
  unfold hash_code
  apply BitVec.toInt_nonneg_of_msb_false
  rw [BitVec.msb_eq_getLsbD_last, BitVec.getLsbD_setWidth, hsign, Bool.and_false]

/-! ## The table -/

section
variable {σ : Type}

/-- An entry, with the address that `sin` stands for. -/
structure HashEntry (σ : Type) where
  hostname : List Byte
  port : Nat
  sin : σ
  deriving DecidableEq, Repr

def HashEntry.key (e : HashEntry σ) : List Byte × Nat := (e.hostname, e.port)

/-- Where the search for a key starts. -/
def home (k : List Byte × Nat) : Nat := (hash_index k.1 k.2).toNat

abbrev HashTable (σ : Type) := Nat → Option (HashEntry σ)

/-- The loop has no bound of its own. -/
def hash_enter (fuel : Nat) (hash_table : HashTable σ) (e : HashEntry σ) : Option (HashTable σ) :=
  (place HASH_TABLE_SIZE hash_table fuel (home e.key)).map fun index =>
    Function.update hash_table index (some e)

def hash_lookup (fuel : Nat) (hash_table : HashTable σ) (server : List Byte) (port : Nat) :
    Option (Option σ) :=
  let start_index := home (server, port)
  (find HASH_TABLE_SIZE hash_table (fun e => e.key = (server, port)) start_index fuel
    start_index).map (Option.map HashEntry.sin)

/-- One `hash_enter` after the other. -/
def hash_enters (fuel : Nat) : HashTable σ → List (HashEntry σ) → Option (HashTable σ)
  | hash_table, [] => some hash_table
  | hash_table, e :: entries =>
    (hash_enter fuel hash_table e).bind fun hash_table => hash_enters fuel hash_table entries

/-- The entries of `log` are in the table. -/
abbrev Interned (hash_table : HashTable σ) (log : List (HashEntry σ)) : Prop :=
  Holds HASH_TABLE_SIZE HashEntry.key home hash_table log

theorem home_lt (k : List Byte × Nat) : home k < HASH_TABLE_SIZE := by
  have hlt : hash_index k.1 k.2 < HASH_TABLE_SIZE := Int.tmod_lt_of_pos _ (by decide)
  have hpos : 0 < HASH_TABLE_SIZE := by decide
  unfold home
  omega

theorem hash_enter_spec {hash_table : HashTable σ} {log : List (HashEntry σ)}
    (h : Interned hash_table log) (hroom : log.length < HASH_TABLE_SIZE) (e : HashEntry σ)
    {fuel : Nat} (hfuel : HASH_TABLE_SIZE ≤ fuel) :
    ∃ hash_table', hash_enter fuel hash_table e = some hash_table' ∧
    Interned hash_table' (log ++ [e]) := by
  obtain ⟨d, hd, hplace, hfree, hbefore⟩ := h.room hroom (home_lt e.key) hfuel
  refine ⟨_, ?_, h.put hd hfree hbefore⟩
  unfold hash_enter
  rw [hplace]
  rfl

theorem hash_enter_keeps {hash_table hash_table' : HashTable σ} {log : List (HashEntry σ)}
    (h : Interned hash_table log) (hroom : log.length < HASH_TABLE_SIZE) {e : HashEntry σ}
    {fuel : Nat} (henter : hash_enter fuel hash_table e = some hash_table') :
    Interned hash_table' (log ++ [e]) := by
  obtain ⟨index, hplace, rfl⟩ := Option.map_eq_some_iff.mp henter
  obtain ⟨hash_table₁, henter₁, h₁⟩ :=
    hash_enter_spec h hroom e (Nat.le_max_right fuel HASH_TABLE_SIZE)
  unfold hash_enter at henter₁
  rw [place_mono hplace (Nat.le_max_left fuel HASH_TABLE_SIZE)] at henter₁
  obtain rfl := Option.some.inj henter₁
  exact h₁

/-- A full table has no end for the loop. -/
theorem hash_enter_full {hash_table : HashTable σ} {log : List (HashEntry σ)}
    (h : Interned hash_table log) (hfull : HASH_TABLE_SIZE ≤ log.length) (e : HashEntry σ)
    (fuel : Nat) :
    hash_enter fuel hash_table e = none := by
  unfold hash_enter
  rw [h.no_room hfull (home_lt e.key)]
  rfl

theorem hash_enters_spec {fuel : Nat} (hfuel : HASH_TABLE_SIZE ≤ fuel)
    (entries : List (HashEntry σ)) {hash_table : HashTable σ} {log : List (HashEntry σ)}
    (h : Interned hash_table log) (hroom : log.length + entries.length ≤ HASH_TABLE_SIZE) :
    ∃ hash_table', hash_enters fuel hash_table entries = some hash_table' ∧
      Interned hash_table' (log ++ entries) := by
  induction entries generalizing hash_table log with
  | nil => exact ⟨hash_table, rfl, by rwa [List.append_nil]⟩
  | cons e entries ih =>
    rw [List.length_cons] at hroom
    obtain ⟨hash_table₁, henter, h₁⟩ := hash_enter_spec h (by omega) e hfuel
    have hlen : (log ++ [e]).length = log.length + 1 := by simp
    obtain ⟨hash_table₂, henters, h₂⟩ := ih h₁ (by omega)
    refine ⟨hash_table₂, ?_, ?_⟩
    · unfold hash_enters
      rw [henter]
      exact henters
    · rwa [List.append_assoc, List.singleton_append] at h₂

theorem hash_lookup_spec {hash_table : HashTable σ} {log : List (HashEntry σ)}
    (h : Interned hash_table log) (server : List Byte) (port : Nat) {fuel : Nat}
    (hfuel : HASH_TABLE_SIZE ≤ fuel) :
    hash_lookup fuel hash_table server port =
      some ((log.find? fun e => e.key = (server, port)).map HashEntry.sin) := by
  unfold hash_lookup
  dsimp only
  rw [h.lookup (home_lt (server, port)) hfuel]
  rfl

/-- Up to 1024 servers can be entered, and each is found with the address of its first entry. -/
theorem lookup_finds_what_was_entered (entries : List (HashEntry σ))
    (hlen : entries.length ≤ HASH_TABLE_SIZE) :
    (∀ server port, port ≤ 65535 → 0 ≤ hash_code server port ∧ 0 ≤ hash_index server port) ∧
      ∀ fuel, HASH_TABLE_SIZE ≤ fuel →
        ∃ hash_table, hash_enters fuel (fun _ => none) entries = some hash_table ∧
          ∀ server port, hash_lookup fuel hash_table server port =
            some ((entries.find? fun e => e.hostname = server ∧ e.port = port).map
              HashEntry.sin) := by
  refine ⟨fun server port hport => ?_, fun fuel hfuel => ?_⟩
  · have hcode := hash_code_nonneg server hport
    exact ⟨hcode, Int.tmod_nonneg _ hcode⟩
  · obtain ⟨hash_table, henters, h⟩ :=
      hash_enters_spec hfuel entries (holds_empty ..) (by rw [List.length_nil]; omega)
    refine ⟨hash_table, henters, fun server port => ?_⟩
    rw [hash_lookup_spec h server port hfuel, List.nil_append]
    simp only [HashEntry.key, Prod.mk.injEq]

theorem lookup_finds_what_was_entered_twice :
    ∃ hash_table, hash_enters 1024 (fun _ => none)
        [⟨bytes "a", 80, 1⟩, ⟨bytes "q", 80, 2⟩, ⟨bytes "a", 80, 3⟩] = some hash_table ∧
      hash_lookup 1024 hash_table (bytes "a") 80 = some (some 1) ∧
      hash_lookup 1024 hash_table (bytes "b") 80 = some none := by
  obtain ⟨-, hfinds⟩ := lookup_finds_what_was_entered
    [⟨bytes "a", 80, 1⟩, ⟨bytes "q", 80, 2⟩, ⟨bytes "a", 80, 3⟩] (by decide)
  obtain ⟨hash_table, henters, hlookup⟩ := hfinds 1024 (by decide)
  refine ⟨hash_table, henters, ?_, ?_⟩
  · rw [hlookup]
    decide +kernel
  · rw [hlookup]
    decide +kernel

/-! ## The file of servers -/

/-- How `conn_add_servers` ends: it returns, and the table is filled, or a server address is
invalid, or the cursor has left the file. -/
inductive Ended (σ : Type) where
  | returned (hash_table : HashTable σ)
  | exit
  | fault

/-- The file in memory. The last page is filled up with zeros. -/
structure Mapping where
  file : List Byte
  page_size : Nat

/-- `strlen (srvcurrent)`, if the string ends inside of the mapping. -/
def Mapping.strlen (m : Mapping) (srvcurrent : Int) : Option Nat :=
  let rest := m.file.drop srvcurrent.toNat
  if 0 ≤ srvcurrent ∧ (0 ∈ rest ∨ m.file.length % m.page_size ≠ 0) then some (cstr rest).length
  else none

def Mapping.name (m : Mapping) (srvcurrent : Int) : List Byte := cstr (m.file.drop srvcurrent.toNat)

variable (m : Mapping) (port : Nat) (resolve : List Byte → Option σ)

/-- `resolve` stands for `gethostbyname` and `inet_aton`. Where neither knows the name, the program
exits. -/
def core_addr_intern (fuel : Nat) (hash_table : HashTable σ) (server : List Byte) :
    Option (Option (HashTable σ)) :=
  match resolve server with
  | none => some none
  | some sin => (hash_enter fuel hash_table ⟨server, port, sin⟩).map some

def servers_loop (fuel : Nat) : Nat → Int → HashTable σ → Option (Ended σ)
  | 0, _, _ => none
  | n + 1, srvcurrent, hash_table =>
    if m.file.length ≤ srvcurrent then some (.returned hash_table)
    else
      match m.strlen srvcurrent with
      | none => some .fault
      | some len =>
        match core_addr_intern port resolve fuel hash_table (m.name srvcurrent) with
        | none => none
        | some none => some .exit
        | some (some hash_table) => servers_loop fuel n (srvcurrent + int_of len + 1) hash_table

/-- `fuel` bounds this loop and the one of `hash_enter`. -/
def conn_add_servers (fuel : Nat) : Option (Ended σ) :=
  servers_loop m port resolve fuel fuel 0 fun _ => none

/-- The loops come to an end, and the cursor does not leave the file. -/
def Terminates : Prop :=
  ∃ fuel ended, conn_add_servers m port resolve fuel = some ended ∧ ended ≠ .fault

/-- From the cursor on there are at most `room` names before the end of the file, or before a name
that cannot be resolved. -/
inductive FewNames : Nat → Int → Prop where
  | returned {room : Nat} {srvcurrent : Int} : m.file.length ≤ srvcurrent → FewNames room srvcurrent
  | exit {room : Nat} {srvcurrent : Int} {len : Nat} : srvcurrent < m.file.length →
      m.strlen srvcurrent = some len → resolve (m.name srvcurrent) = none → FewNames room srvcurrent
  | name {room : Nat} {srvcurrent : Int} {len : Nat} {sin : σ} : srvcurrent < m.file.length →
      m.strlen srvcurrent = some len → resolve (m.name srvcurrent) = some sin →
      FewNames room (srvcurrent + int_of len + 1) → FewNames (room + 1) srvcurrent

variable {m port resolve}

theorem servers_loop_ends {room : Nat} {srvcurrent : Int} (h : FewNames m resolve room srvcurrent)
    {hash_table : HashTable σ} {log : List (HashEntry σ)} (hlog : Interned hash_table log)
    (hroom : log.length + room ≤ HASH_TABLE_SIZE) {fuel : Nat} (hfuel : HASH_TABLE_SIZE ≤ fuel)
    {n : Nat} (hn : room < n) :
    ∃ ended, servers_loop m port resolve fuel n srvcurrent hash_table = some ended ∧
    ended ≠ .fault := by
  induction h generalizing hash_table log n with
  | returned hend =>
    obtain ⟨n, rfl⟩ := Nat.exists_eq_succ_of_ne_zero (Nat.ne_zero_of_lt hn)
    refine ⟨.returned hash_table, ?_, nofun⟩
    unfold servers_loop
    rw [if_pos hend]
  | exit hlt hlen hunknown =>
    obtain ⟨n, rfl⟩ := Nat.exists_eq_succ_of_ne_zero (Nat.ne_zero_of_lt hn)
    refine ⟨.exit, ?_, nofun⟩
    unfold servers_loop core_addr_intern
    rw [if_neg (Int.not_le.mpr hlt), hlen]
    dsimp only
    rw [hunknown]
  | @name room srvcurrent len sin hlt hlen hknown _ ih =>
    obtain ⟨n, rfl⟩ := Nat.exists_eq_succ_of_ne_zero (Nat.ne_zero_of_lt hn)
    obtain ⟨hash_table₁, henter, h₁⟩ :=
      hash_enter_spec hlog (by omega) ⟨m.name srvcurrent, port, sin⟩ hfuel
    obtain ⟨ended, hends, hne⟩ := ih h₁ (by rw [List.length_append, List.length_singleton]; omega)
      (n := n) (by omega)
    refine ⟨ended, ?_, hne⟩
    unfold servers_loop core_addr_intern
    rw [if_neg (Int.not_le.mpr hlt), hlen]
    dsimp only
    rw [hknown]
    dsimp only
    rw [henter]
    exact hends

theorem fewNames_of_ends {fuel n : Nat} {srvcurrent : Int} {ended : Ended σ}
    {hash_table : HashTable σ} {log : List (HashEntry σ)} (hlog : Interned hash_table log)
    (hle : log.length ≤ HASH_TABLE_SIZE)
    (hends : servers_loop m port resolve fuel n srvcurrent hash_table = some ended)
    (hne : ended ≠ .fault) : FewNames m resolve (HASH_TABLE_SIZE - log.length) srvcurrent := by
  induction n generalizing srvcurrent hash_table log with
  | zero => cases hends
  | succ n ih =>
    unfold servers_loop core_addr_intern at hends
    split_ifs at hends with hend
    · exact .returned hend
    · rw [Int.not_le] at hend
      cases hlen : m.strlen srvcurrent with
      | none =>
        rw [hlen] at hends
        exact absurd (Option.some.inj hends).symm hne
      | some len =>
        rw [hlen] at hends
        dsimp only at hends
        cases hresolve : resolve (m.name srvcurrent) with
        | none => exact .exit hend hlen hresolve
        | some sin =>
          rw [hresolve] at hends
          dsimp only at hends
          rcases Nat.lt_or_ge log.length HASH_TABLE_SIZE with hroom | hfull
          · cases henter : hash_enter fuel hash_table ⟨m.name srvcurrent, port, sin⟩ with
            | none =>
              rw [henter] at hends
              cases hends
            | some hash_table' =>
              rw [henter] at hends
              have hone (e : HashEntry σ) : (log ++ [e]).length = log.length + 1 := by simp
              have hrest := ih (hash_enter_keeps hlog hroom henter) (by rw [hone]; omega) hends
              have hsucc : HASH_TABLE_SIZE - log.length = HASH_TABLE_SIZE - (log.length + 1) +
                  1 := by omega
              rw [hone] at hrest
              rw [hsucc]
              exact .name hend hlen hresolve hrest
          · rw [hash_enter_full hlog hfull] at hends
            cases hends

theorem conn_add_servers_terminates_iff :
    Terminates m port resolve ↔ FewNames m resolve HASH_TABLE_SIZE 0 := by
  constructor
  · rintro ⟨fuel, ended, hends, hne⟩
    have hfew := fewNames_of_ends (holds_empty ..) (Nat.zero_le _) hends hne
    rwa [List.length_nil, Nat.sub_zero] at hfew
  · intro h
    obtain ⟨ended, hends, hne⟩ := servers_loop_ends h (holds_empty ..) (by simp)
      (Nat.le_succ HASH_TABLE_SIZE) (Nat.lt_succ_self _)
    exact ⟨HASH_TABLE_SIZE + 1, ended, hends, hne⟩

/-- Short names that are all known: there must be room for all of them. -/
theorem fewNames_listing_iff (page_size : Nat) {names : List (List Byte)}
    (hnames : ∀ name ∈ names, 0 ∉ name ∧ name.length < 2 ^ 31 ∧ (resolve name).isSome)
    (front : List (List Byte)) (room : Nat) :
    FewNames ⟨listing (front ++ names), page_size⟩ resolve room (listing front).length ↔
      names.length ≤ room := by
  induction names generalizing front room with
  | nil =>
    rw [List.append_nil]
    exact iff_of_true (.returned (Int.le_refl _)) (Nat.zero_le _)
  | cons name names ih =>
    rw [List.forall_mem_cons] at hnames
    obtain ⟨⟨hnul, hshort, hknown⟩, hnames⟩ := hnames
    have hrest := ih hnames (front ++ [name])
    rw [List.append_assoc, List.singleton_append] at hrest
    obtain ⟨sin, hsin⟩ := Option.isSome_iff_exists.mp hknown
    generalize hm : (⟨listing (front ++ name :: names), page_size⟩ : Mapping) = m at hrest ⊢
    have hdrop : m.file.drop (listing front).length = name ++ 0 :: listing names := by
      rw [← hm, listing_drop]
    have hlt : ((listing front).length : Int) < m.file.length := by
      rw [← hm, listing_append, listing_cons, List.length_append, List.length_append,
        List.length_cons]
      omega
    have hname : m.name (listing front).length = name := by
      unfold Mapping.name
      rw [Int.toNat_natCast, hdrop, cstr_append hnul]
    have hlen : m.strlen (listing front).length = some name.length := by
      unfold Mapping.strlen
      rw [Int.toNat_natCast, hdrop, if_pos ⟨by omega, .inl (by simp)⟩, cstr_append hnul]
    have hnext : ((listing front).length : Int) + int_of name.length + 1 =
        (listing (front ++ [name])).length := by
      rw [int_of_eq hshort, listing_append, listing_cons, List.length_append, List.length_append]
      simp [listing, Int.add_assoc]
    constructor
    · rintro (hend | ⟨-, -, hunknown⟩ | @⟨room, _, len, _, -, hlen', -, hfew⟩)
      · omega
      · rw [hname, hsin] at hunknown
        cases hunknown
      · obtain rfl := Option.some.inj (hlen.symm.trans hlen')
        rw [hnext] at hfew
        exact Nat.succ_le_succ ((hrest room).mp hfew)
    · intro hroom
      obtain ⟨room, rfl⟩ := Nat.exists_eq_succ_of_ne_zero (Nat.ne_zero_of_lt hroom)
      refine .name hlt hlen (hname ▸ hsin) ?_
      rw [hnext]
      exact (hrest room).mpr (Nat.le_of_succ_le_succ hroom)

theorem the_1025th_server_is_never_entered :
    ¬ Terminates ⟨listing (List.replicate 1025 (bytes "127.0.0.1")), 4096⟩ 80
      (fun name => some name) := by
  rintro ⟨fuel, ended, hends, hne⟩
  have hfew := fewNames_of_ends (holds_empty ..) (Nat.zero_le _) hends hne
  have hnames : ∀ name ∈ List.replicate 1025 (bytes "127.0.0.1"),
      0 ∉ name ∧ name.length < 2 ^ 31 ∧ (some name).isSome := by
    intro name hname
    rw [List.eq_of_mem_replicate hname]
    decide
  have hroom := (fewNames_listing_iff 4096 hnames [] HASH_TABLE_SIZE).mp hfew
  rw [List.length_replicate] at hroom
  exact absurd hroom (by decide)

end

end Httperf.Servers
