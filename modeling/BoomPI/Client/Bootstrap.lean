import BoomPI.Client.Endpoint
import BoomPI.Lts
import BoomPI.Scan

/-!
# Finding the server

`network_bootstrap.cpp` once a network is up: the datagram of `Discover`, the file of
`LoadServer` and `SaveServer`, and `Start` again and again. `AtomicWrite` makes one
call of the system a step; between any two the process may be killed or the power fail.
-/

namespace BoomPI.Client

-- ---------------------------------------------------------------------------
-- Addresses
-- ---------------------------------------------------------------------------

def dot : UInt8 := 0x2e

def isOctet (s : List UInt8) : Bool :=
  s ≠ [] ∧ s.all Scan.isDigit ∧ (s.length = 1 ∨ s.head? ≠ some 0x30) ∧ Scan.value s < 256

/-- `inet_pton(AF_INET, ..)` -/
def inetPton (host : List UInt8) : Bool :=
  (host.splitOn dot).length = 4 ∧ (host.splitOn dot).all isOctet

abbrev Address := UInt8 × UInt8 × UInt8 × UInt8

/-- `inet_ntop(AF_INET, ..)` -/
def inetNtop (address : Address) : List UInt8 :=
  let (a, b, c, d) := address
  [dot].intercalate ([a, b, c, d].map fun octet => Scan.decimal octet.toNat)

def internet : Network where
  inetPton := inetPton

-- ---------------------------------------------------------------------------
-- The file
-- ---------------------------------------------------------------------------

/-- `operator>>` for an `unsigned`: a magnitude that does not fit fails, a minus sign negates. -/
def extractUnsigned (s : List UInt8) : Option (Nat × List UInt8) := do
  let (negative, magnitude, rest) ← Scan.number s
  if 2 ^ 32 ≤ magnitude then none
  else some (if negative then (2 ^ 32 - magnitude) % 2 ^ 32 else magnitude, rest)

def loadFields (file : Option (List UInt8)) : Option (List UInt8 × Nat × List UInt8) := do
  let (host, rest) ← Scan.word (← file)
  let (port, rest) ← extractUnsigned rest
  let (spki, rest) ← Scan.word rest
  if (Scan.word rest).isSome then none else some (host, port, spki)

/-- What `SaveServer` writes. -/
def serverText (server : NetworkBootstrapResult) : List UInt8 :=
  server.host ++ 0x20 :: Scan.decimal server.port.toNat ++ 0x20 :: server.spki_sha256_base64 ++ [0x0a]

-- ---------------------------------------------------------------------------
-- The datagram
-- ---------------------------------------------------------------------------

structure Datagram where
  address : Address
  port : Nat
  bytes : List UInt8
  deriving DecidableEq, Repr

def discoveryPort : Nat := 17807

def discoverRequest : List UInt8 := "BOOMPI_DISCOVER_V1".toUTF8.data.toList

def responseMagic : List UInt8 := "BOOMPI_SERVER_V1".toUTF8.data.toList

/-- What `%u` makes of a number that no `unsigned` holds. -/
abbrev Overflow := Bool → Nat → UInt32

def scanUnsigned (overflow : Overflow) (s : List UInt8) : Option (Nat × List UInt8) := do
  let (negative, magnitude, rest) ← Scan.number s
  some (if ¬ negative ∧ magnitude < 2 ^ 32 then magnitude else (overflow negative magnitude).toNat, rest)

/-- `Discover` behind `recvfrom`, up to `IsEndpoint`. -/
def discoverFields (overflow : Overflow) (datagram : Option Datagram) : Option (List UInt8 × Nat × List UInt8) := do
  let d ← datagram
  if d.bytes = [] ∨ d.port ≠ discoveryPort then none
  else
    let rest ← Scan.literal responseMagic ((d.bytes.take 95).takeWhile (· ≠ 0))
    let (port, rest) ← scanUnsigned overflow rest
    let (spki, rest) ← Scan.wordWithin 44 rest
    if rest ≠ [] ∨ port = 0 ∨ 65535 < port then none else some (inetNtop d.address, port, spki)

-- ---------------------------------------------------------------------------
-- AtomicWrite
-- ---------------------------------------------------------------------------

/-- The two names of `AtomicWrite`. `older` lists the files a power failure may bring back
under the name of the configuration, for nobody waits until a rename is on the disk. -/
structure Disk where
  file : Option (List UInt8) := none
  older : List (Option (List UInt8)) := []
  temporary : Option (List UInt8) := none
  deriving DecidableEq, Repr

/-- What a power failure may leave of the configuration. -/
def Disk.survivors (d : Disk) : List (Option (List UInt8)) := d.file :: d.older

/-- What `LoadServer` reads. Where its `ifstream` fails there is no server, as without a file. -/
def Disk.read (d : Disk) (readable : Bool) : Option (List UInt8) := if readable then d.file else none

inductive WriteAt
  | opening
  | chmod
  | writing (offset : Nat)
  | syncing
  | closing (ok : Bool)
  | installing
  | unlinking
  deriving DecidableEq, Repr

inductive Call
  | succeeds
  | fails
  | interrupted
  | wrote (count : Nat)
  deriving DecidableEq, Repr

def writeLoop (text : List UInt8) (offset : Nat) : WriteAt :=
  if offset < text.length then .writing offset else .syncing

/-- One call of `AtomicWrite`, up to the next one or to the result. -/
def atomicWrite (text : List UInt8) (d : Disk) : WriteAt → Call → Option (Disk × (WriteAt ⊕ Bool))
  | .opening, .succeeds => some ({ d with temporary := some [] }, .inl .chmod)
  | .opening, .fails => some (d, .inr false)
  | .chmod, .succeeds => some (d, .inl (writeLoop text 0))
  | .chmod, .fails => some (d, .inl .unlinking)
  | .writing offset, .wrote count =>
    if 0 < count ∧ offset + count ≤ text.length then
      some ({ d with temporary := d.temporary.map (· ++ (text.drop offset).take count) },
        .inl (writeLoop text (offset + count)))
    else none
  | .writing offset, .interrupted => some (d, .inl (.writing offset))
  | .writing _, .fails => some (d, .inl (.closing false))
  | .syncing, .succeeds => some (d, .inl (.closing true))
  | .syncing, .fails => some (d, .inl (.closing false))
  | .closing ok, .succeeds => some (d, .inl (if ok then .installing else .unlinking))
  | .closing _, .fails => some (d, .inl .unlinking)
  | .installing, .succeeds =>
    some ({ file := d.temporary, older := d.file :: d.older, temporary := none }, .inr true)
  | .installing, .fails => some (d, .inl .unlinking)
  | .unlinking, .succeeds => some ({ d with temporary := none }, .inr false)
  | .unlinking, .fails => some (d, .inr false)
  | _, _ => none

-- ---------------------------------------------------------------------------
-- Start, again and again
-- ---------------------------------------------------------------------------

/-- Where the process stands: outside, in `Start` with what it has read and found, or in
`main` with the server that is configured. -/
inductive StartAt
  | off
  | saving (saved found : Option (List UInt8 × Nat × List UInt8)) (server : NetworkBootstrapResult) (w : WriteAt)
  | configuring (server : NetworkBootstrapResult) (w : WriteAt)
  deriving DecidableEq, Repr

/-- `returned` lists the servers `Start` has returned. -/
structure Bootstrap where
  disk : Disk := {}
  place : StartAt := .off
  returned : List NetworkBootstrapResult := []
  deriving DecidableEq, Repr

inductive BootstrapLabel
  | start (datagram : Option Datagram) (readable mkdir : Bool)
  | configure (server : NetworkBootstrapResult) (mkdir : Bool)
  | call (c : Call)
  | writeBack                                  -- the renames reach the disk
  | kill
  | powerFailure (survivor : Nat) (temporary : Option (List UInt8))
  deriving DecidableEq, Repr

namespace Bootstrap

def finish (s : Bootstrap) (server : Option NetworkBootstrapResult) : Bootstrap :=
  { s with place := .off, returned := s.returned ++ server.toList }

/-- `Start` and `SaveServer` up to the first call of `AtomicWrite`. -/
def begin (s : Bootstrap) (found : Option (List UInt8 × Nat × List UInt8)) (readable mkdir : Bool) : Bootstrap :=
  let saved := loadFields (s.disk.read readable)
  match readServer internet found with
  | none => s.finish (start internet none saved found false)
  | some server =>
    if ((readServer internet saved).all fun saved => server.spki_sha256_base64 = saved.spki_sha256_base64) ∧
        saveServer internet server mkdir then
      { s with place := .saving saved found server .opening }
    else s.finish (start internet none saved found false)

def step (overflow : Overflow) (s : Bootstrap) : BootstrapLabel → Option Bootstrap
  | .start datagram readable mkdir =>
    if s.place = .off then some (s.begin (discoverFields overflow datagram) readable mkdir) else none
  | .configure server mkdir =>
    if s.place = .off then
      some (if saveServer internet server mkdir then { s with place := .configuring server .opening } else s)
    else none
  | .call c =>
    match s.place with
    | .off => none
    | .saving saved found server w =>
      (atomicWrite (serverText server) s.disk w c).map fun
        | (disk, .inl w) => { s with disk, place := .saving saved found server w }
        | (disk, .inr ok) => { s with disk }.finish (start internet none saved found ok)
    | .configuring server w =>
      (atomicWrite (serverText server) s.disk w c).map fun
        | (disk, .inl w) => { s with disk, place := .configuring server w }
        | (disk, .inr ok) =>
          { s with disk }.finish (if ok then start internet (some server) none none false else none)
  | .writeBack => some { s with disk := { s.disk with older := [] } }
  | .kill => some { s with place := .off }
  | .powerFailure survivor temporary =>
    s.disk.survivors[survivor]?.map fun file => { s with disk := { file, temporary }, place := .off }

def machine (overflow : Overflow) : Lts.Machine Bootstrap BootstrapLabel where
  Init s := s = {}
  step := step overflow

end Bootstrap

-- ---------------------------------------------------------------------------
-- What is written is read
-- ---------------------------------------------------------------------------

variable {server : NetworkBootstrapResult} {text : List UInt8} {file : Option (List UInt8)}

theorem mem_intercalate {c : UInt8} {ls : List (List UInt8)} (h : c ∈ [dot].intercalate ls) :
    c = dot ∨ ∃ l ∈ ls, c ∈ l := by
  induction ls with
  | nil => simp [List.intercalate] at h
  | cons l ls ih =>
    cases ls with
    | nil => exact .inr ⟨l, by simp, by simpa [List.intercalate] using h⟩
    | cons m ms =>
      have hcons : [dot].intercalate (l :: m :: ms) = l ++ dot :: [dot].intercalate (m :: ms) := by
        simp [List.intercalate, List.intersperse]
      rw [hcons] at h
      rcases List.mem_append.mp h with h | h
      · exact .inr ⟨l, by simp, h⟩
      · rcases List.mem_cons.mp h with h | h
        · exact .inl h
        · rcases ih h with h | ⟨l', hmem, h⟩
          · exact .inl h
          · exact .inr ⟨l', List.mem_cons_of_mem _ hmem, h⟩

theorem inetPton_bytes (h : inetPton text = true) : text ≠ [] ∧ ∀ c ∈ text, c = dot ∨ Scan.isDigit c = true := by
  simp only [inetPton, decide_eq_true_eq] at h
  obtain ⟨hlen, hall⟩ := h
  constructor
  · rintro rfl
    cases hlen
  · intro c hc
    rw [← (List.intercalate_splitOn dot : [dot].intercalate (text.splitOn dot) = text)] at hc
    rcases mem_intercalate hc with hc | ⟨l, hl, hc⟩
    · exact .inl hc
    · have hoctet := List.all_eq_true.mp hall l hl
      simp only [isOctet, decide_eq_true_eq] at hoctet
      exact .inr (List.all_eq_true.mp hoctet.2.1 c hc)

theorem isOctet_decimal : ∀ n : Fin 256, isOctet (Scan.decimal n) = true := by decide +kernel

theorem dot_not_digit : Scan.isDigit dot = false := by decide

/-- What `inet_ntop` writes is an address. -/
theorem inetPton_inetNtop (address : Address) : inetPton (inetNtop address) = true := by
  obtain ⟨a, b, c, d⟩ := address
  have hsplit : (inetNtop (a, b, c, d)).splitOn dot = [a, b, c, d].map fun octet => Scan.decimal octet.toNat := by
    apply List.splitOn_intercalate
    · intro l hl hdot
      obtain ⟨octet, -, rfl⟩ := List.mem_map.mp hl
      have hdigit := (Scan.decimal_digits octet.toNat).2 dot hdot
      rw [dot_not_digit] at hdigit
      cases hdigit
    · simp
  have hall : (([a, b, c, d].map fun octet => Scan.decimal octet.toNat).all isOctet) = true := by
    rw [List.all_map, List.all_eq_true]
    intro octet _
    exact isOctet_decimal ⟨octet.toNat, octet.toNat_lt⟩
  rw [inetPton, hsplit, hall]
  rfl

/-- A host that is an address, and no more. -/
structure Sound (server : NetworkBootstrapResult) : Prop where
  endpoint : isEndpoint internet server = true
  terminated : (0 : UInt8) ∉ server.host

theorem takeWhile_terminated {s : List UInt8} (h : (0 : UInt8) ∉ s) : s.takeWhile (· ≠ 0) = s := by
  rw [List.takeWhile_eq_self_iff]
  intro c hc
  simpa using ne_of_mem_of_not_mem hc h

theorem address_isSpace {c : UInt8} (h : c = dot ∨ Scan.isDigit c = true) : Scan.isSpace c = false := by
  rcases h with rfl | h
  · decide
  · exact Scan.digit_isSpace c h

theorem digit_bytes : ∀ v, Scan.isSpace (Base64.digit v) = false ∧ Base64.digit v ≠ 0 := by decide

theorem isSpki_bytes (h : isSpki text = true) : text.length = 44 ∧ ∀ c ∈ text, Scan.isSpace c = false ∧ c ≠ 0 := by
  obtain ⟨ss, hlen, rfl⟩ := isSpki_iff.mp h
  refine ⟨by simp [hlen], fun c hc => ?_⟩
  rcases List.mem_append.mp hc with hc | hc
  · obtain ⟨v, -, rfl⟩ := List.mem_map.mp hc
    exact digit_bytes v
  · rw [List.mem_singleton.mp hc]
    decide

/-- `LoadServer` reads what `SaveServer` writes. -/
theorem load_serverText (hs : Sound server) : readServer internet (loadFields (some (serverText server))) = some server := by
  have hendpoint := hs.endpoint
  simp only [isEndpoint, decide_eq_true_eq, takeWhile_terminated hs.terminated] at hendpoint
  obtain ⟨-, hspki, hhost⟩ := hendpoint
  obtain ⟨hne, hbytes⟩ := inetPton_bytes hhost
  obtain ⟨hlen, hdigits⟩ := isSpki_bytes hspki
  have hspace : Scan.isSpace 0x20 = true := by decide
  have htext : serverText server = server.host ++
      0x20 :: (Scan.decimal server.port.toNat ++ 0x20 :: (server.spki_sha256_base64 ++ [0x0a])) := by
    simp [serverText]
  have hword : Scan.word (serverText server) = some (server.host,
      0x20 :: (Scan.decimal server.port.toNat ++ 0x20 :: (server.spki_sha256_base64 ++ [0x0a]))) := by
    rw [htext]
    exact Scan.word_append hne (fun c hc => address_isSpace (hbytes c hc)) (Scan.blank_cons hspace)
  have hport : extractUnsigned (0x20 :: (Scan.decimal server.port.toNat ++
      0x20 :: (server.spki_sha256_base64 ++ [0x0a]))) =
        some (server.port.toNat, 0x20 :: (server.spki_sha256_base64 ++ [0x0a])) := by
    have hlt : ¬ 2 ^ 32 ≤ server.port.toNat := Nat.not_le.mpr (Nat.lt_trans server.port.toNat_lt (by decide))
    have hblank : ∀ c ∈ (0x20 :: (server.spki_sha256_base64 ++ [0x0a])).head?, Scan.isDigit c = false := by
      intro c hc
      cases hc
      decide
    rw [extractUnsigned, Scan.number_blank hspace, Scan.number_decimal hblank]
    exact if_neg hlt
  have hpin : Scan.word (0x20 :: (server.spki_sha256_base64 ++ [0x0a])) = some (server.spki_sha256_base64, [0x0a]) := by
    apply Scan.word_blank_append hspace
    · intro hnil
      rw [hnil] at hlen
      cases hlen
    · exact fun c hc => (hdigits c hc).1
    · exact Scan.blank_cons (by decide)
  have hrest : Scan.word [0x0a] = none := Scan.word_blanks (by simp [Scan.isSpace])
  have hfields : loadFields (some (serverText server)) =
      some (server.host, server.port.toNat, server.spki_sha256_base64) := by
    simp [loadFields, hword, hport, hpin, hrest]
  have hsame : { server with port := UInt16.ofNat server.port.toNat } = server := by simp
  rw [hfields, readServer, hsame]
  exact if_pos ⟨Nat.le_of_lt_succ server.port.toNat_lt, hs.endpoint⟩

-- ---------------------------------------------------------------------------
-- AtomicWrite is all or nothing
-- ---------------------------------------------------------------------------

variable {d d' : Disk} {w : WriteAt} {c : Call} {r : WriteAt ⊕ Bool}

def Writes (text : List UInt8) (d : Disk) : WriteAt → Prop
  | .opening | .unlinking | .closing false => True
  | .chmod => d.temporary = some []
  | .writing offset => d.temporary = some (text.take offset)
  | .syncing | .closing true | .installing => d.temporary = some text

/-- After a call: the files are as they were, or the whole text has taken the place of the
configuration. -/
inductive Wrote (text : List UInt8) (d d' : Disk) : WriteAt ⊕ Bool → Prop
  | goes {w : WriteAt} : d'.survivors = d.survivors → Writes text d' w → Wrote text d d' (.inl w)
  | fails : d'.survivors = d.survivors → Wrote text d d' (.inr false)
  | succeeds : d'.survivors = some text :: d.survivors → Wrote text d d' (.inr true)

theorem writes_loop {offset : Nat} (ht : d.temporary = some (text.take offset)) : Writes text d (writeLoop text offset) := by
  unfold writeLoop
  split
  · exact ht
  · rename_i hle
    rw [List.take_of_length_le (Nat.le_of_not_lt hle)] at ht
    exact ht

theorem atomicWrite_wrote (hw : Writes text d w) (h : atomicWrite text d w c = some (d', r)) : Wrote text d d' r := by
  cases w with
  | opening =>
    cases c <;> simp only [atomicWrite, reduceCtorEq] at h <;> cases h
    · exact .goes rfl rfl
    · exact .fails rfl
  | chmod =>
    cases c <;> simp only [atomicWrite, reduceCtorEq] at h <;> cases h
    · exact .goes rfl (writes_loop hw)
    · exact .goes rfl trivial
  | writing offset =>
    cases c with
    | succeeds => cases h
    | fails =>
      cases h
      exact .goes rfl trivial
    | interrupted =>
      cases h
      exact .goes rfl hw
    | wrote count =>
      simp only [atomicWrite, Option.ite_none_right_eq_some] at h
      obtain ⟨-, h⟩ := h
      cases h
      refine .goes rfl (writes_loop ?_)
      have ht : d.temporary = some (text.take offset) := hw
      simp [ht, List.take_add]
  | syncing =>
    cases c <;> simp only [atomicWrite, reduceCtorEq] at h <;> cases h
    · exact .goes rfl hw
    · exact .goes rfl trivial
  | closing ok =>
    cases c <;> simp only [atomicWrite, reduceCtorEq] at h <;> cases h
    · refine .goes rfl ?_
      cases ok
      · exact trivial
      · exact hw
    · exact .goes rfl trivial
  | installing =>
    have ht : d.temporary = some text := hw
    cases c <;> simp only [atomicWrite, reduceCtorEq] at h <;> cases h
    · exact .succeeds (by rw [Disk.survivors, ht, Disk.survivors])
    · exact .goes rfl trivial
  | unlinking =>
    cases c <;> simp only [atomicWrite, reduceCtorEq] at h <;> cases h
    · exact .fails rfl
    · exact .fails rfl

-- ---------------------------------------------------------------------------
-- What Start returns
-- ---------------------------------------------------------------------------

variable {saved found : Option (List UInt8 × Nat × List UInt8)} {server' : NetworkBootstrapResult} {written : Bool}

def SamePin (saved : Option NetworkBootstrapResult) (server : NetworkBootstrapResult) : Prop :=
  ∀ s ∈ saved, server.spki_sha256_base64 = s.spki_sha256_base64

theorem samePin_iff {saved : Option NetworkBootstrapResult} : (saved.all fun saved =>
    server.spki_sha256_base64 = saved.spki_sha256_base64) = true ↔ SamePin saved server := by
  cases saved <;> simp [SamePin]

/-- A server that is found, saved and pinned like the saved one, or else the saved one. -/
theorem start_cases (h : start internet none saved found written = some server) :
    (written = true ∧ readServer internet found = some server ∧ SamePin (readServer internet saved) server) ∨
      readServer internet saved = some server := by
  simp only [start] at h
  split at h
  · exact .inr h
  · rename_i server' hfound
    split at h
    · rename_i hc
      cases h
      obtain ⟨hall, hsave⟩ := hc
      rw [saveServer, Bool.and_eq_true] at hsave
      exact .inl ⟨hsave.2, hfound, samePin_iff.mp hall⟩
    · exact .inr h

theorem start_saved (h : readServer internet saved = some server) :
    ∃ server, start internet none saved found written = some server := by
  simp only [start]
  split
  · exact ⟨server, h⟩
  · split
    · exact ⟨_, rfl⟩
    · exact ⟨server, h⟩

theorem found_sound {overflow : Overflow} {datagram : Option Datagram}
    (h : readServer internet (discoverFields overflow datagram) = some server) : Sound server := by
  refine ⟨readServer_isEndpoint h, ?_⟩
  cases hfields : discoverFields overflow datagram with
  | none =>
    rw [hfields] at h
    cases h
  | some fields =>
    obtain ⟨host, port, spki⟩ := fields
    have hhost : ∃ address, host = inetNtop address := by
      cases datagram with
      | none => cases hfields
      | some d =>
        simp only [discoverFields, Option.bind_eq_bind, Option.bind_some, Option.ite_none_left_eq_some,
          Option.bind_eq_some_iff, Prod.exists, Option.some.injEq, Prod.mk.injEq] at hfields
        obtain ⟨-, -, -, -, -, -, -, -, -, -, hhost, -⟩ := hfields
        exact ⟨d.address, hhost.symm⟩
    obtain ⟨address, rfl⟩ := hhost
    rw [hfields, readServer] at h
    simp only [Option.ite_none_right_eq_some, Option.some.injEq] at h
    obtain ⟨-, rfl⟩ := h
    intro hzero
    rcases (inetPton_bytes (inetPton_inetNtop address)).2 0 hzero with hc | hc
    · cases hc
    · cases hc

-- ---------------------------------------------------------------------------
-- Runs
-- ---------------------------------------------------------------------------

section Kept

-- `D` holds of every datagram, and `F` is to hold of every file of the configuration, `S` of
-- every server that is saved and `R` of every server that is returned.
variable {overflow : Overflow} {D : Option Datagram → Prop} {F : Option (List UInt8) → Prop} {S R : NetworkBootstrapResult → Prop}
  {s t : Bootstrap} {l : BootstrapLabel}

/-- The datagrams are such, a file that is not read is as good as one, and a configured server is
one that may be saved. -/
def Receives (D : Option Datagram → Prop) (F : Option (List UInt8) → Prop) (S : NetworkBootstrapResult → Prop) :
    Bootstrap → BootstrapLabel → Prop
  | _, .start datagram readable _ => D datagram ∧ (readable = true ∨ F none)
  | _, .configure server mkdir => saveServer internet server mkdir = true → S server
  | _, _ => True

/-- The rules the files, the saved and the returned servers follow. -/
structure Rules (overflow : Overflow) (D : Option Datagram → Prop) (F : Option (List UInt8) → Prop)
    (S R : NetworkBootstrapResult → Prop) : Prop where
  writes : ∀ server, S server → F (some (serverText server))
  finds : ∀ file datagram server, F file → D datagram → readServer internet (discoverFields overflow datagram) = some server →
    SamePin (readServer internet (loadFields file)) server → S server
  loads : ∀ file server, F file → readServer internet (loadFields file) = some server → R server
  returns : ∀ server, S server → R server

def Saves (F : Option (List UInt8) → Prop) (S : NetworkBootstrapResult → Prop) (d : Disk) : StartAt → Prop
  | .off => True
  | .saving saved found server w =>
    (∃ file, F file ∧ saved = loadFields file) ∧ readServer internet found = some server ∧ S server ∧
      Writes (serverText server) d w
  | .configuring server w => S server ∧ Writes (serverText server) d w

structure Kept (F : Option (List UInt8) → Prop) (S R : NetworkBootstrapResult → Prop) (s : Bootstrap) : Prop where
  files : ∀ file ∈ s.disk.survivors, F file
  saves : Saves F S s.disk s.place
  returned : ∀ server ∈ s.returned, R server

theorem Kept.finish {server : Option NetworkBootstrapResult} (hk : Kept F S R s) (hr : ∀ r ∈ server, R r) :
    Kept F S R (s.finish server) := by
  refine ⟨hk.files, trivial, ?_⟩
  intro r hmem
  rcases List.mem_append.mp hmem with hmem | hmem
  · exact hk.returned r hmem
  · exact hr r (Option.mem_toList.mp hmem)

theorem Kept.begin {datagram : Option Datagram} {readable mkdir : Bool} (hk : Kept F S R s)
    (hrules : Rules overflow D F S R) (hd : D datagram) (hread : readable = true ∨ F none) :
    Kept F S R (s.begin (discoverFields overflow datagram) readable mkdir) := by
  have hfile : F (s.disk.read readable) := by
    cases readable with
    | true => exact hk.files _ List.mem_cons_self
    | false => exact hread.resolve_left (by simp)
  have hfails : ∀ r ∈ start internet none (loadFields (s.disk.read readable)) (discoverFields overflow datagram) false,
      R r := by
    intro r hr
    rcases start_cases hr with ⟨hwritten, -⟩ | hloaded
    · cases hwritten
    · exact hrules.loads _ _ hfile hloaded
  unfold Bootstrap.begin
  dsimp only
  split
  · exact hk.finish hfails
  · rename_i server hfound
    split
    · rename_i hc
      have hsame := samePin_iff.mp hc.1
      exact ⟨hk.files, ⟨⟨_, hfile, rfl⟩, hfound, hrules.finds _ _ _ hfile hd hfound hsame, trivial⟩, hk.returned⟩
    · exact hk.finish hfails

/-- The survivors after a call of `AtomicWrite`. -/
theorem Wrote.files (hw : Wrote text d d' r) (hf : ∀ file ∈ d.survivors, F file) (ht : F (some text)) :
    ∀ file ∈ d'.survivors, F file := by
  cases hw with
  | goes hs _ | fails hs =>
    rw [hs]
    exact hf
  | succeeds hs =>
    rw [hs]
    intro file hmem
    rcases List.mem_cons.mp hmem with rfl | hmem
    · exact ht
    · exact hf file hmem

theorem Kept.call (hk : Kept F S R s) (hrules : Rules overflow D F S R)
    (hs : Bootstrap.step overflow s (.call c) = some t) : Kept F S R t := by
  have hsaves := hk.saves
  simp only [Bootstrap.step] at hs
  split at hs
  · cases hs
  · rename_i saved found server w hplace
    rw [hplace] at hsaves
    obtain ⟨⟨file, hfile, rfl⟩, hfound, hsave, hwrites⟩ := hsaves
    obtain ⟨⟨disk, result⟩, hcall, rfl⟩ := Option.map_eq_some_iff.mp hs
    have hwrote := atomicWrite_wrote hwrites hcall
    have hfiles := hwrote.files hk.files (hrules.writes server hsave)
    cases hwrote with
    | goes _ hnext => exact ⟨hfiles, ⟨⟨file, hfile, rfl⟩, hfound, hsave, hnext⟩, hk.returned⟩
    | fails | succeeds =>
      refine Kept.finish (s := { s with disk, place := .off }) ⟨hfiles, trivial, hk.returned⟩ ?_
      intro r hr
      rcases start_cases hr with ⟨-, hloaded, -⟩ | hloaded
      · rw [hfound] at hloaded
        cases hloaded
        exact hrules.returns _ hsave
      · exact hrules.loads _ _ hfile hloaded
  · rename_i server w hplace
    rw [hplace] at hsaves
    obtain ⟨hsave, hwrites⟩ := hsaves
    obtain ⟨⟨disk, result⟩, hcall, rfl⟩ := Option.map_eq_some_iff.mp hs
    have hwrote := atomicWrite_wrote hwrites hcall
    have hfiles := hwrote.files hk.files (hrules.writes server hsave)
    cases hwrote with
    | goes _ hnext => exact ⟨hfiles, ⟨hsave, hnext⟩, hk.returned⟩
    | fails =>
      refine Kept.finish (s := { s with disk, place := .off }) ⟨hfiles, trivial, hk.returned⟩ ?_
      intro r hr
      cases hr
    | succeeds =>
      refine Kept.finish (s := { s with disk, place := .off }) ⟨hfiles, trivial, hk.returned⟩ ?_
      intro r hr
      simp only [if_true, start, Option.mem_def, Option.ite_none_right_eq_some, Option.some.injEq] at hr
      obtain ⟨-, rfl⟩ := hr
      exact hrules.returns _ hsave

theorem Kept.step (hk : Kept F S R s) (hrules : Rules overflow D F S R) (hc : Receives D F S s l)
    (hs : Bootstrap.step overflow s l = some t) : Kept F S R t := by
  cases l with
  | start datagram readable mkdir =>
    simp only [Bootstrap.step, Option.ite_none_right_eq_some, Option.some.injEq] at hs
    obtain ⟨-, rfl⟩ := hs
    exact hk.begin hrules hc.1 hc.2
  | configure server mkdir =>
    simp only [Bootstrap.step, Option.ite_none_right_eq_some, Option.some.injEq] at hs
    obtain ⟨-, rfl⟩ := hs
    split
    · rename_i hsave
      exact ⟨hk.files, ⟨hc hsave, trivial⟩, hk.returned⟩
    · exact hk
  | call c => exact hk.call hrules hs
  | writeBack =>
    cases hs
    refine ⟨fun file hmem => ?_, ?_, hk.returned⟩
    · rw [List.mem_singleton.mp hmem]
      exact hk.files _ List.mem_cons_self
    · have hsaves := hk.saves
      dsimp only
      cases hp : s.place <;> rw [hp] at hsaves <;> exact hsaves
  | kill =>
    cases hs
    exact ⟨hk.files, trivial, hk.returned⟩
  | powerFailure survivor temporary =>
    obtain ⟨file, hget, rfl⟩ := Option.map_eq_some_iff.mp hs
    refine ⟨fun other hmem => ?_, trivial, hk.returned⟩
    rw [List.mem_singleton.mp hmem]
    exact hk.files file (List.mem_of_getElem? hget)

theorem kept_reachable {M : Lts.Machine Bootstrap BootstrapLabel} (hrules : Rules overflow D F S R)
    (hstep : M.step = Bootstrap.step overflow) (hinit : ∀ s, M.Init s → Kept F S R s)
    (ht : M.ReachableUnder (Receives D F S) t) : Kept F S R t := by
  apply ht.invariant hinit
  intro s l t hk hc hs
  rw [hstep] at hs
  exact hk.step hrules hc hs

end Kept

-- ---------------------------------------------------------------------------
-- Progress
-- ---------------------------------------------------------------------------

variable {overflow : Overflow} {s t : Bootstrap} {datagram : Option Datagram}

def succeeds (text : List UInt8) : List BootstrapLabel :=
  [.call .succeeds, .call .succeeds, .call (.wrote text.length), .call .succeeds, .call .succeeds, .call .succeeds]

theorem serverText_pos : 0 < (serverText server).length := by simp [serverText]

theorem start_found (hfound : readServer internet found = some server) (hsame : SamePin (readServer internet saved) server) :
    start internet none saved found true = some server := by
  have hsave : saveServer internet server true = true := by
    rw [saveServer, readServer_isEndpoint hfound]
    rfl
  simp only [start, hfound]
  exact if_pos ⟨samePin_iff.mpr hsame, hsave⟩

theorem run_found (hoff : s.place = .off) (hfound : readServer internet (discoverFields overflow datagram) = some server)
    (hsame : SamePin (readServer internet (loadFields s.disk.file)) server) :
    ∃ t, (Bootstrap.machine overflow).run s (.start datagram true true :: succeeds (serverText server)) = some t ∧
      t.place = .off ∧ t.disk.file = some (serverText server) ∧ t.returned = s.returned ++ [server] := by
  have hsave : saveServer internet server true = true := by
    rw [saveServer, readServer_isEndpoint hfound]
    rfl
  have hbegin : s.begin (discoverFields overflow datagram) true true = { s with
      place := .saving (loadFields s.disk.file) (discoverFields overflow datagram) server .opening } := by
    simp only [Bootstrap.begin, hfound]
    exact if_pos ⟨samePin_iff.mpr hsame, hsave⟩
  have hpos : 0 < (serverText server).length := serverText_pos
  have hloop : writeLoop (serverText server) 0 = .writing 0 := if_pos hpos
  have hdone : writeLoop (serverText server) (serverText server).length = .syncing := if_neg (Nat.lt_irrefl _)
  refine ⟨{
    disk := { file := some (serverText server), older := s.disk.file :: s.disk.older }
    returned := s.returned ++ [server] }, ?_, rfl, rfl, rfl⟩
  simp only [succeeds, Lts.Machine.run, Bootstrap.machine, Bootstrap.step, hoff, if_true, hbegin, Option.bind_some,
    atomicWrite, Option.map_some, hloop, hpos, Nat.zero_add, Nat.le_refl, and_self, hdone, List.nil_append,
    List.drop_zero, List.take_length, start_found hfound hsame]
  rfl

-- ---------------------------------------------------------------------------
-- The file is whole, and the pin endures
-- ---------------------------------------------------------------------------

def Trusts (trusted : List UInt8 → Prop) : Bootstrap → BootstrapLabel → Prop
  | _, .configure server _ => (0 : UInt8) ∉ server.host ∧ trusted server.spki_sha256_base64
  | _, _ => True

def BootstrapLabel.reads : BootstrapLabel → Bool
  | .start _ readable _ => readable
  | _ => true

def Whole (file : Option (List UInt8)) : Prop :=
  ∃ server, isEndpoint internet server = true ∧ file = some (serverText server) ∧
    readServer internet (loadFields file) = some server

def pinOf (file : Option (List UInt8)) : Option (List UInt8) :=
  (readServer internet (loadFields file)).map (·.spki_sha256_base64)

variable {pin : List UInt8}

theorem saveServer_endpoint {mkdir : Bool} (h : saveServer internet server mkdir = true) :
    isEndpoint internet server = true := by
  rw [saveServer, Bool.and_eq_true] at h
  exact h.1

theorem whole_serverText (hs : Sound server) : Whole (some (serverText server)) :=
  ⟨server, hs.endpoint, rfl, load_serverText hs⟩

theorem whole_rules : Rules overflow (fun _ => True) (fun file => file = none ∨ Whole file) Sound
    (fun server => isEndpoint internet server = true) where
  writes _ hs := .inr (whole_serverText hs)
  finds _ _ _ _ _ hfound _ := found_sound hfound
  loads _ _ _ hloaded := readServer_isEndpoint hloaded
  returns _ hs := hs.endpoint

def pinText (byte : UInt8) : List UInt8 := Base64.encode (List.replicate 32 byte)

def answers (address : Address) (pin : List UInt8) : Datagram where
  address := address
  port := discoveryPort
  bytes := responseMagic ++ 0x20 :: Scan.decimal 17806 ++ 0x20 :: pin

/-- `AtomicWrite` up to its rename; the text goes out in two pieces. -/
def writesTo (length : Nat) : List BootstrapLabel :=
  [.call .succeeds, .call .succeeds, .call (.wrote 5), .call .interrupted, .call (.wrote (length - 5)), .call .succeeds,
    .call .succeeds]

def unconfigured (_ : Bootstrap) : BootstrapLabel → Bool
  | .configure _ _ => false
  | _ => true

theorem trusts_of_unconfigured {trusted : List UInt8 → Prop} (s : Bootstrap) (l : BootstrapLabel)
    (h : unconfigured s l = true) : Trusts trusted s l := by
  cases l with
  | configure => cases h
  | _ => trivial

/-- Whatever fails and wherever the process or the power stops, the configuration is not
there or it is whole, and `Start` returns endpoints only. -/
theorem file_whole (ht : (Bootstrap.machine overflow).ReachableUnder (Trusts fun _ => True) t) :
    (∀ file ∈ t.disk.survivors, file = none ∨ Whole file) ∧
      ∀ server ∈ t.returned, isEndpoint internet server = true := by
  have hkept : Kept (fun file => file = none ∨ Whole file) Sound (fun server => isEndpoint internet server = true) t := by
    refine kept_reachable (M := Bootstrap.machine overflow) whole_rules rfl ?_ (ht.mono ?_)
    · rintro s rfl
      exact ⟨by simp [Disk.survivors], trivial, by simp⟩
    · intro s l hc
      cases l with
      | start => exact ⟨trivial, .inr (.inl rfl)⟩
      | configure server mkdir => exact fun hsave => ⟨saveServer_endpoint hsave, hc.1⟩
      | _ => trivial
  exact ⟨hkept.files, hkept.returned⟩

/-- A server is found and saved; the next one, found by a start that cannot read the file, is
on its way to it when the power fails. -/
theorem file_whole_sample : ∃ t, (Bootstrap.machine fun _ _ => 0).ReachableUnder (Trusts fun _ => True) t ∧
    (∀ file ∈ t.disk.survivors, file = none ∨ Whole file) ∧ t.disk.file ≠ none := by
  obtain ⟨t, ht, hp⟩ := (Bootstrap.machine fun _ _ => 0).exists_of_runIf unconfigured trusts_of_unconfigured {}
    ([.start (some (answers (10, 0, 0, 2) (pinText 0))) true true] ++ writesTo 60 ++ [.call .succeeds,
      .start (some (answers (10, 0, 0, 12) (pinText 1))) false true, .call .succeeds, .call .succeeds, .call (.wrote 3),
      .powerFailure 0 (some [1])])
    (fun t => decide (t.disk.file ≠ none)) rfl (by decide +kernel)
  exact ⟨t, ht, (file_whole ht).1, of_decide_eq_true hp⟩

theorem pin_rules : Rules overflow (fun _ => True) (fun file => pinOf file = some pin)
    (fun server => Sound server ∧ server.spki_sha256_base64 = pin) (fun server => server.spki_sha256_base64 = pin) where
  writes _ := by
    rintro ⟨hs, hpin⟩
    simp [pinOf, load_serverText hs, hpin]
  finds file _ _ hfile _ hfound hsame := by
    obtain ⟨saved, hsaved, hpin⟩ := Option.map_eq_some_iff.mp hfile
    exact ⟨found_sound hfound, (hsame saved hsaved).trans hpin⟩
  loads file _ hfile hloaded := by
    simpa [pinOf, hloaded] using hfile
  returns _ hs := hs.2

/-- A start that cannot read its file takes the server it finds, whatever its pin. -/
theorem begin_unread {mkdir : Bool} (hfound : readServer internet found = some server)
    (hsave : saveServer internet server mkdir = true) :
    s.begin found false mkdir = { s with place := .saving none found server .opening } := by
  simp only [Bootstrap.begin, hfound]
  exact if_pos ⟨rfl, hsave⟩

/-- Once every file that may come back has a pin, it is the only one for ever, as long as each
start can read its file: whatever is received, whatever else fails and wherever the process or
the power stops, every file has that pin, every server `Start` returns has it, and there is
always one to return. -/
theorem pin_endures (hoff : s.place = .off) (hnone : s.returned = [])
    (hpin : ∀ file ∈ s.disk.survivors, pinOf file = some pin)
    (ht : ((Bootstrap.machine overflow).begunIn s).ReachableUnder
      (fun s l => Trusts (· = pin) s l ∧ l.reads = true) t) :
    (∀ file ∈ t.disk.survivors, pinOf file = some pin) ∧
      (∀ server ∈ t.returned, server.spki_sha256_base64 = pin) ∧
      ∀ file ∈ t.disk.survivors, ∀ found written, ∃ server,
        start internet none (loadFields file) found written = some server ∧ server.spki_sha256_base64 = pin := by
  have hkept : Kept (fun file => pinOf file = some pin) (fun server => Sound server ∧ server.spki_sha256_base64 = pin)
      (fun server => server.spki_sha256_base64 = pin) t := by
    refine kept_reachable (M := (Bootstrap.machine overflow).begunIn s) pin_rules rfl ?_ (ht.mono ?_)
    · rintro _ rfl
      exact ⟨hpin, by rw [hoff]; trivial, by simp [hnone]⟩
    · intro s l hc
      cases l with
      | start => exact ⟨trivial, .inl hc.2⟩
      | configure server mkdir => exact fun hsave => ⟨⟨saveServer_endpoint hsave, hc.1.1⟩, hc.1.2⟩
      | _ => trivial
  refine ⟨hkept.files, hkept.returned, fun file hmem found written => ?_⟩
  obtain ⟨saved, hsaved, hp⟩ := Option.map_eq_some_iff.mp (hkept.files file hmem)
  obtain ⟨server, hserver⟩ : ∃ server, start internet none (loadFields file) found written = some server :=
    start_saved hsaved
  refine ⟨server, hserver, ?_⟩
  rcases start_cases hserver with ⟨-, -, hsame⟩ | hloaded
  · exact (hsame saved hsaved).trans hp
  · rw [hsaved] at hloaded
    cases hloaded
    exact hp

def paired : Bootstrap where
  disk := { file := some (serverText { host := inetNtop (10, 0, 0, 2), port := 17806, spki_sha256_base64 := pinText 0 }) }

/-- Another server answers, then the server from another address; the process is killed and
the power fails in between. -/
theorem pin_endures_sample : ∃ t,
    ((Bootstrap.machine fun _ _ => 0).begunIn paired).ReachableUnder
        (fun s l => Trusts (· = pinText 0) s l ∧ l.reads = true) t ∧
      t.returned.length = 2 ∧ ∀ server ∈ t.returned, server.spki_sha256_base64 = pinText 0 := by
  have htrusts : ∀ (s : Bootstrap) l, (unconfigured s l && l.reads) = true →
      Trusts (· = pinText 0) s l ∧ l.reads = true := by
    intro s l h
    rw [Bool.and_eq_true] at h
    exact ⟨trusts_of_unconfigured s l h.1, h.2⟩
  obtain ⟨t, ht, hp⟩ := ((Bootstrap.machine fun _ _ => 0).begunIn paired).exists_of_runIf
    (fun s l => unconfigured s l && l.reads) htrusts paired
    ([.start (some (answers (10, 0, 0, 66) (pinText 1))) true true,
      .start (some (answers (10, 0, 0, 12) (pinText 0))) true true, .call .succeeds, .kill,
      .start (some (answers (10, 0, 0, 12) (pinText 0))) true true] ++ writesTo 61 ++
        [.call .succeeds, .powerFailure 1 none])
    (fun t => decide (t.returned.length = 2)) rfl (by decide +kernel)
  have hpin : ∀ file ∈ paired.disk.survivors, pinOf file = some (pinText 0) := by
    intro file hmem
    rw [List.mem_singleton.mp hmem]
    decide +kernel
  exact ⟨t, ht, of_decide_eq_true hp, (pin_endures rfl rfl hpin ht).2.1⟩

end BoomPI.Client
