-- Which server a connection goes to (`conn_init` in `conn.c`). With `--servers` the connections
-- take the servers of the file in turn, and `core_connect` finds each of them in the table that
-- `conn_add_servers` has made.
import Httperf.Servers

namespace Httperf.Servers

open Lib.Probing

/-! ## The connections -/

/-- The parameters that a connection takes its server from. -/
structure ServerParam where
  servers : Option Mapping
  server : List Byte
  server_name : Option (List Byte)
  port : Nat

/-- What `core_connect` looks up, and the name in the `Host` header. -/
structure ConnServer where
  hostname : List Byte
  fqdname : List Byte
  port : Nat
  deriving DecidableEq, Repr

/-- The first `strcspn (fqdname, "\r\n")` bytes. -/
def chomp (fqdname : List Byte) : List Byte := fqdname.takeWhile fun c => c ≠ CR ∧ c ≠ LF

/-- The part of `conn_init` that is about the server, and `srvcurrent` behind it. A string that does
not end inside of the mapping has no result. -/
def conn_init (param : ServerParam) (srvcurrent : Int) : Option (ConnServer × Int) :=
  match param.servers with
  | some m =>
    (m.strlen srvcurrent).map fun len =>
      let hostname := m.name srvcurrent
      let next := srvcurrent + int_of len + 1
      (⟨hostname, chomp hostname, param.port⟩, if next ≥ m.file.length then 0 else next)
  | none =>
    some (⟨param.server, chomp (param.server_name.getD param.server), param.port⟩, srvcurrent)

/-- The first connections, and `srvcurrent` behind them. -/
def conns (param : ServerParam) : Nat → Option (List ConnServer × Int)
  | 0 => some ([], 0)
  | n + 1 => (conns param n).bind fun s => (conn_init param s.2).map fun r => (s.1 ++ [r.1], r.2)

/-! ## A file of names -/

/-- A name as a string, which is not too long for an `int`. -/
def IsName (name : List Byte) : Prop := 0 ∉ name ∧ name.length < 2 ^ 31

section
variable {front rest : List (List Byte)} {name : List Byte} {page_size : Nat}

theorem strlen_name (hname : IsName name) :
    Mapping.strlen ⟨listing (front ++ name :: rest), page_size⟩ (listing front).length =
      some name.length := by
  unfold Mapping.strlen
  rw [Int.toNat_natCast, listing_drop, if_pos ⟨Int.natCast_nonneg _, .inl (by simp)⟩,
    cstr_append hname.1]

theorem name_name (hname : IsName name) :
    Mapping.name ⟨listing (front ++ name :: rest), page_size⟩ (listing front).length = name := by
  unfold Mapping.name
  rw [Int.toNat_natCast, listing_drop, cstr_append hname.1]

theorem next_name (hname : IsName name) :
    ((listing front).length : Int) + int_of name.length + 1 =
      (listing (front ++ [name])).length := by
  rw [int_of_eq hname.2, listing_concat_length]
  rfl

/-- Behind some names there is another one, or the file is at its end. -/
theorem listing_le_iff : ((listing (front ++ [name])).length : Int) ≥
    (listing (front ++ name :: rest)).length ↔
    rest = [] := by
  have hsplit : front ++ name :: rest = front ++ [name] ++ rest := by simp
  rw [hsplit, listing_append _ rest, List.length_append]
  cases rest with
  | nil => simp [listing]
  | cons a rest =>
    rw [listing_cons, List.length_append, List.length_cons]
    simp only [reduceCtorEq, iff_false]
    omega

end

/-! ## The table -/

section
variable {σ : Type} {port : Nat} {resolve : List Byte → Option σ}

/-- What is entered for the names. -/
def entries (port : Nat) (resolve : List Byte → Option σ) (names : List (List Byte)) :
    List (HashEntry σ) :=
  names.filterMap fun name => (resolve name).map fun sin => ⟨name, port, sin⟩

/-- The loop enters the names, one after the other. -/
theorem servers_loop_names (page_size fuel : Nat) {names : List (List Byte)}
    (hnames : ∀ name ∈ names, IsName name ∧ (resolve name).isSome) (front : List (List Byte))
    (hash_table : HashTable σ) {n : Nat} (hn : names.length < n) :
    servers_loop ⟨listing (front ++ names), page_size⟩ port resolve fuel n
      (listing front).length hash_table =
      (hash_enters fuel hash_table (entries port resolve names)).map .returned := by
  induction names generalizing front hash_table n with
  | nil =>
    obtain ⟨n, rfl⟩ := Nat.exists_eq_succ_of_ne_zero (Nat.ne_zero_of_lt hn)
    unfold servers_loop
    rw [List.append_nil, if_pos (Int.le_refl _)]
    rfl
  | cons name names ih =>
    obtain ⟨n, rfl⟩ := Nat.exists_eq_succ_of_ne_zero (Nat.ne_zero_of_lt hn)
    rw [List.forall_mem_cons] at hnames
    obtain ⟨⟨hname, hknown⟩, hnames⟩ := hnames
    obtain ⟨sin, hsin⟩ := Option.isSome_iff_exists.mp hknown
    have hlt : ¬ ((listing (front ++ name :: names)).length : Int) ≤ (listing front).length := by
      rw [listing_append, listing_cons, List.length_append, List.length_append, List.length_cons]
      omega
    have hentries : entries port resolve (name :: names) =
        ⟨name, port, sin⟩ :: entries port resolve names := by
      simp [entries, hsin]
    unfold servers_loop core_addr_intern
    rw [if_neg hlt, strlen_name hname, name_name hname, hentries]
    simp only [hsin, hash_enters]
    cases hash_enter fuel hash_table ⟨name, port, sin⟩ with
    | none => rfl
    | some hash_table' =>
      have hrest := ih hnames (front ++ [name]) hash_table' (Nat.lt_of_succ_lt_succ hn)
      rw [List.append_assoc, List.singleton_append] at hrest
      rw [next_name hname]
      exact hrest

/-- A name of the file is found with its address. -/
theorem find_entry {names : List (List Byte)} {name : List Byte} (hmem : name ∈ names) {sin : σ}
    (hsin : resolve name = some sin) :
    ((entries port resolve names).find? fun e => e.key = (name, port)).map HashEntry.sin =
      some sin := by
  induction names with
  | nil => exact absurd hmem List.not_mem_nil
  | cons other names ih =>
    by_cases heq : other = name
    · subst heq
      simp [entries, hsin, HashEntry.key]
    · have hrest := ih (List.mem_of_ne_of_mem (Ne.symm heq) hmem)
      cases hother : resolve other with
      | none =>
        have hentries : entries port resolve (other :: names) = entries port resolve names := by
          simp [entries, hother]
        rw [hentries]
        exact hrest
      | some sin' =>
        have hentries : entries port resolve (other :: names) =
            ⟨other, port, sin'⟩ :: entries port resolve names := by
          simp [entries, hother]
        rw [hentries, List.find?_cons_of_neg (by simp [HashEntry.key, heq])]
        exact hrest

/-! ## In turn -/

/-- The server of the connection `i`. -/
def turn (port : Nat) (names : List (List Byte)) (i : Nat) : ConnServer :=
  let name := names.getD (i % names.length) []
  ⟨name, chomp name, port⟩

variable {param : ServerParam} {names : List (List Byte)} {page_size : Nat}

theorem conn_init_turn (hservers : param.servers = some ⟨listing names, page_size⟩)
    (hnames : ∀ name ∈ names, IsName name) {i : Nat} (hi : i < names.length) :
    conn_init param (listing (names.take i)).length =
      some (turn param.port names i,
        ((listing (names.take ((i + 1) % names.length))).length : Int)) := by
  obtain ⟨front, name, rest, hsplit, rfl⟩ :
      ∃ front name rest, names = front ++ name :: rest ∧ front.length = i :=
    ⟨names.take i, names[i], names.drop (i + 1), by simp, by simp [Nat.le_of_lt hi]⟩
  subst hsplit
  have hname := hnames name (by simp)
  have hturn : turn param.port (front ++ name :: rest) front.length =
      ⟨name, chomp name, param.port⟩ := by
    have hget : (front ++ name :: rest).getD front.length [] = name := by simp
    simp only [turn, Nat.mod_eq_of_lt hi, hget]
  have hnext :
      (if ((listing (front ++ [name])).length : Int) ≥
        (listing (front ++ name :: rest)).length then 0
      else ((listing (front ++ [name])).length : Int)) =
      (listing
        ((front ++ name :: rest).take
          ((front.length + 1) % (front ++ name :: rest).length))).length := by
    cases rest with
    | nil =>
      rw [if_pos (listing_le_iff.mpr rfl)]
      simp [listing]
    | cons a rest =>
      have hround : (front.length + 1) % (front ++ name :: a :: rest).length = front.length + 1 :=
        Nat.mod_eq_of_lt (by simp)
      have htake : (front ++ name :: a :: rest).take (front.length + 1) = front ++ [name] := by
        simp [List.take_append, List.take_of_length_le]
      rw [if_neg (fun h => by cases listing_le_iff.mp h), hround, htake]
  unfold conn_init
  rw [hservers, List.take_left]
  dsimp only
  rw [strlen_name hname, name_name hname, Option.map_some, next_name hname, hnext, hturn]

theorem conns_turns (hservers : param.servers = some ⟨listing names, page_size⟩)
    (hnames : ∀ name ∈ names, IsName name) (hsome : names ≠ []) (n : Nat) :
    conns param n = some ((List.range n).map (turn param.port names),
      ((listing (names.take (n % names.length))).length : Int)) := by
  have hpos := List.length_pos_of_ne_nil hsome
  induction n with
  | zero => simp [conns, listing]
  | succ n ih =>
    have hturn : turn param.port names (n % names.length) = turn param.port names n := by
      simp [turn]
    rw [conns, ih, Option.bind_some, conn_init_turn hservers hnames (Nat.mod_lt n hpos), hturn,
      Nat.mod_add_mod, List.range_succ, List.map_append]
    rfl

/-- With a file of servers that are all known, `conn_add_servers` returns. However many connections
are made, each gets the server that is next in turn, inside of the file, and `core_connect` finds
the address of each of them in the table that `conn_add_servers` has filled. -/
theorem connections_take_the_servers_in_turn
    (hservers : param.servers = some ⟨listing names, page_size⟩)
    (hnames : ∀ name ∈ names, (0 ∉ name ∧ name.length < 2 ^ 31) ∧ (resolve name).isSome)
    (hsome : names ≠ []) (hroom : names.length ≤ HASH_TABLE_SIZE) {fuel : Nat}
    (hfuel : HASH_TABLE_SIZE < fuel) :
    ∃ hash_table,
      conn_add_servers ⟨listing names, page_size⟩ param.port resolve fuel =
        some (.returned hash_table) ∧
        ∀ n, ∃ srvcurrent,
          conns param n = some ((List.range n).map (turn param.port names), srvcurrent) ∧
            ∀ s ∈ (List.range n).map (turn param.port names), ∃ sin, resolve s.hostname = some sin ∧
              hash_lookup fuel hash_table s.hostname s.port = some (some sin) := by
  have hpos := List.length_pos_of_ne_nil hsome
  have hle : (entries param.port resolve names).length ≤ HASH_TABLE_SIZE :=
    Nat.le_trans (List.length_filterMap_le _ _) hroom
  obtain ⟨hash_table, henters, hinterned⟩ := hash_enters_spec (Nat.le_of_lt hfuel)
    (entries param.port resolve names) (holds_empty ..)
    (by rw [List.length_nil, Nat.zero_add]; exact hle)
  have hconns := conns_turns hservers (fun name h => (hnames name h).1) hsome
  refine ⟨hash_table, ?_, fun n => ⟨_, hconns n, ?_⟩⟩
  · have hloop : conn_add_servers ⟨listing names, page_size⟩ param.port resolve fuel =
        (hash_enters fuel (fun _ => none) (entries param.port resolve names)).map .returned :=
      servers_loop_names page_size fuel hnames [] (fun _ => none) (Nat.lt_of_le_of_lt hroom hfuel)
    rw [hloop, henters]
    rfl
  · intro s hs
    obtain ⟨i, -, rfl⟩ := List.mem_map.mp hs
    have hlt := Nat.mod_lt i hpos
    have hmem : names.getD (i % names.length) [] ∈ names := by
      rw [List.getD_eq_getElem _ _ hlt]
      exact List.getElem_mem hlt
    obtain ⟨sin, hsin⟩ := Option.isSome_iff_exists.mp (hnames _ hmem).2
    refine ⟨sin, hsin, ?_⟩
    rw [hash_lookup_spec hinterned _ _ (Nat.le_of_lt hfuel), List.nil_append]
    exact congrArg some (find_entry hmem hsin)

end

/-- Two servers, and three connections. -/
theorem connections_take_the_servers_in_turn_three :
    ∃ hash_table, conn_add_servers ⟨listing [bytes "a", bytes "b"], 4096⟩ 80 some 1025 =
        some (.returned hash_table) ∧
      (∃ srvcurrent, conns ⟨some ⟨listing [bytes "a", bytes "b"], 4096⟩, [], none, 80⟩ 3 =
        some ([⟨bytes "a", bytes "a", 80⟩, ⟨bytes "b", bytes "b", 80⟩, ⟨bytes "a", bytes "a", 80⟩],
          srvcurrent)) ∧
      hash_lookup 1025 hash_table (bytes "b") 80 = some (some (bytes "b")) := by
  obtain ⟨hash_table, hreturned, hconns⟩ := @connections_take_the_servers_in_turn (List Byte) some
    ⟨some ⟨listing [bytes "a", bytes "b"], 4096⟩, [], none, 80⟩ [bytes "a", bytes "b"] 4096 rfl
    (by decide) (by decide) (by decide) 1025 (by decide)
  obtain ⟨srvcurrent, h, hlookup⟩ := hconns 3
  obtain ⟨sin, hsin, hfound⟩ := hlookup ⟨bytes "b", bytes "b", 80⟩ (by decide)
  obtain rfl := Option.some.inj hsin
  exact ⟨hash_table, hreturned, ⟨srvcurrent, h⟩, hfound⟩

end Httperf.Servers
