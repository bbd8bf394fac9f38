import BitDht.Peer.Store
import BitDht.Text.Inet

/-!
# StoreFile — the file of `bdstore.cc`

`writeStore` writes a line for each address, once there are enough of them; `reloadFromStore` reads
such lines.  A file is its bytes, or nothing if it is not there.
-/

namespace BitDht

open Decimal

/-- `ntohs`, and `htons`, which swaps the two bytes as well. -/
def ntohs (port : UInt16) : UInt16 :=
  UInt16.ofNat (port.toNat % 256 * 256 + port.toNat / 256)

/-! ## `writeStore` -/

/-- What `fprintf(fd, "%s %d\n", ..)` writes for a peer. -/
def storeLine (it : BdPeer) : List UInt8 :=
  inetNtoa it.mPeerId.addr.sAddr ++ chr ' ' :: (ofNat (ntohs it.mPeerId.addr.sinPort).toNat ++
    [chr '\n'])

/-- `bdStore::writeStore`, on a file that can be opened for writing if `writable`: the file
afterwards. -/
def writeStore (mStore : List BdPeer) (writable : Bool) (file : Option (List UInt8)) :
    Option (List UInt8) :=
  -- `mStore.size() < 0.9 * MAX_ENTRIES`: don't save yet!
  if 10 * mStore.length < 9 * maxEntries then file
  else if writable then some (mStore.flatMap storeLine)
  else file

/-! ## `reloadFromStore` -/

/-- The size of the buffers for a line and for its first word. -/
def lineSize : Nat := 10240

/-- The lines that `fgets(line, lineSize, fd)` returns one after the other: `room` bytes fit behind
those of `line`, in reverse, and the NUL. -/
def fgetsLines : List UInt8 → Nat → List UInt8 → List (List UInt8)
  | line, _, [] => if line = [] then [] else [line.reverse]
  | line, room, b :: fd =>
      if b = chr '\n' ∨ room ≤ 1 then
        (b :: line).reverse :: fgetsLines [] (lineSize - 1) fd
      else
        fgetsLines (b :: line) (room - 1) fd

/-- `2 == sscanf(line, "%s %hd", addr_str, &port)`, with what is then in `addr_str` and `port`: of
the number the low 16 bits. -/
def sscanfLine (line : List UInt8) : Option (List UInt8 × UInt16) :=
  let s := (cstr line).dropWhile isSpace
  let addrStr := s.takeWhile (fun b => !isSpace b)
  let rest := s.dropWhile (fun b => !isSpace b)
  if addrStr = [] then none
  -- the number has a digit
  else if (afterSign rest).2.takeWhile isDigit = [] then none
  else some (addrStr, UInt16.ofNat ((number rest).1 % 65536).toNat)

/-- A new `bdPeer` with the address that was read. -/
def readPeer (sAddr : UInt32) (sinPort : UInt16) : BdPeer where
  mPeerId :=
    { addr := { sinFamily := afInet, sAddr := sAddr, sinPort := sinPort },
      id := bdZeroNodeId }
  mPeerFlags := 0
  mLastSendTime := 0
  mLastRecvTime := 0
  mFoundTime := 0

/-- The body of the loop of `reloadFromStore`: the peer that a line adds. -/
def readLine (line : List UInt8) : Option BdPeer :=
  match sscanfLine line with
  | some (addrStr, port) => (inetAton addrStr).map (fun sAddr => readPeer sAddr (ntohs port))
  | none => none

/-- `bdStore::reloadFromStore`: the store afterwards and the returned flag. -/
def reloadFromStore (file : Option (List UInt8)) : List BdPeer × Bool :=
  match file with
  -- failed to open file: no peers
  | none => ([], false)
  | some fd => ((fgetsLines [] (lineSize - 1) fd).filterMap readLine, true)

/-! ## Reading what was written -/

theorem ntohs_ntohs (port : UInt16) : ntohs (ntohs port) = port := by
  have hlt : port.toNat < 65536 := port.toNat_lt
  have hswap : (ntohs port).toNat = port.toNat % 256 * 256 + port.toNat / 256 := by
    rw [ntohs, UInt16.toNat_ofNat']
    exact Nat.mod_eq_of_lt (by omega)
  have hback : (port.toNat % 256 * 256 + port.toNat / 256) % 256 * 256 +
      (port.toNat % 256 * 256 + port.toNat / 256) / 256 = port.toNat := by omega
  rw [ntohs, hswap, hback, UInt16.ofNat_toNat]

/-- A byte that is printed for an address: a digit or a dot. -/
theorem mem_inetNtoa {sAddr : UInt32} {b : UInt8} (h : b ∈ inetNtoa sAddr) :
    isDigit b = true ∨ b = chr '.' := by
  simp only [inetNtoa, List.mem_append, List.mem_cons] at h
  rcases h with h | h | h | h | h | h | h
  · exact .inl (ofNat_digits h)
  · exact .inr h
  · exact .inl (ofNat_digits h)
  · exact .inr h
  · exact .inl (ofNat_digits h)
  · exact .inr h
  · exact .inl (ofNat_digits h)

/-- What is printed in front of the newline is neither a newline nor a NUL. -/
theorem storeLine_plain (it : BdPeer) : ∃ text, storeLine it = text ++ [chr '\n'] ∧
    (∀ b ∈ text, b ≠ chr '\n' ∧ b ≠ 0) ∧ text.length < lineSize - 1 := by
  have hdigit : ∀ {b : UInt8}, isDigit b = true → b ≠ chr '\n' ∧ b ≠ 0 := by
    intro b hb
    constructor
    · rintro rfl
      exact absurd hb (by decide)
    · rintro rfl
      exact absurd hb (by decide)
  have hbyte : ∀ n, n < 256 → (ofNat n).length ≤ 3 := fun n hn =>
    length_ofNat_le (by decide) (by omega)
  refine ⟨inetNtoa it.mPeerId.addr.sAddr ++ chr ' ' :: ofNat (ntohs it.mPeerId.addr.sinPort).toNat,
    by simp [storeLine], ?_, ?_⟩
  · intro b hb
    rw [List.mem_append, List.mem_cons] at hb
    rcases hb with hb | rfl | hb
    · rcases mem_inetNtoa hb with hb | rfl
      · exact hdigit hb
      · decide
    · decide
    · exact hdigit (ofNat_digits hb)
  · have hword : it.mPeerId.addr.sAddr.toNat < 4294967296 := it.mPeerId.addr.sAddr.toNat_lt
    have hport : (ntohs it.mPeerId.addr.sinPort).toNat < 65536 :=
      (ntohs it.mPeerId.addr.sinPort).toNat_lt
    have h1 := hbyte (it.mPeerId.addr.sAddr.toNat % 256) (by omega)
    have h2 := hbyte (it.mPeerId.addr.sAddr.toNat / 256 % 256) (by omega)
    have h3 := hbyte (it.mPeerId.addr.sAddr.toNat / 65536 % 256) (by omega)
    have h4 := hbyte (it.mPeerId.addr.sAddr.toNat / 16777216) (by omega)
    have h5 : (ofNat (ntohs it.mPeerId.addr.sinPort).toNat).length ≤ 5 :=
      length_ofNat_le (by decide) (by omega)
    simp only [inetNtoa, List.length_append, List.length_cons, lineSize]
    omega

/-- `fgets` stops behind the first newline, if the line fits. -/
theorem fgetsLines_append {text : List UInt8} (htext : ∀ b ∈ text, b ≠ chr '\n')
    (line : List UInt8) {room : Nat} (hroom : text.length < room) (fd : List UInt8) :
    fgetsLines line room (text ++ chr '\n' :: fd) =
      (line.reverse ++ (text ++ [chr '\n'])) :: fgetsLines [] (lineSize - 1) fd := by
  induction text generalizing line room with
  | nil =>
      simp [fgetsLines]
  | cons b text ih =>
      rw [List.forall_mem_cons] at htext
      rw [List.length_cons] at hroom
      rw [List.cons_append, fgetsLines, if_neg (not_or.2 ⟨htext.1, by omega⟩),
        ih htext.2 (b :: line) (by omega)]
      simp

theorem fgetsLines_flatMap (store : List BdPeer) :
    fgetsLines [] (lineSize - 1) (store.flatMap storeLine) = store.map storeLine := by
  induction store with
  | nil =>
      rfl
  | cons it store ih =>
      rcases storeLine_plain it with ⟨text, hline, hplain, hlength⟩
      have hread := fgetsLines_append (fun b hb => (hplain b hb).1) [] hlength
        (store.flatMap storeLine)
      calc
        fgetsLines [] (lineSize - 1) ((it :: store).flatMap storeLine)
            = fgetsLines [] (lineSize - 1) (text ++ chr '\n' :: store.flatMap storeLine) := by
              rw [List.flatMap_cons, hline, List.append_assoc, List.singleton_append]
        _ = (text ++ [chr '\n']) :: fgetsLines [] (lineSize - 1) (store.flatMap storeLine) := hread
        _ = (it :: store).map storeLine := by rw [ih, List.map_cons, hline]

/-- `%hd` skips the blank in front of a port, and reads it up to the newline. -/
theorem number_port (port : UInt16) :
    (afterSign (chr ' ' :: (ofNat port.toNat ++ [chr '\n']))).2.takeWhile isDigit =
        ofNat port.toNat ∧
      (number (chr ' ' :: (ofNat port.toNat ++ [chr '\n']))).1 = port.toNat := by
  have hblank : afterSign (chr ' ' :: (ofNat port.toNat ++ [chr '\n'])) =
      (false, ofNat port.toNat ++ [chr '\n']) := by
    cases hds : ofNat port.toNat with
    | nil =>
        exact absurd hds (ofNat_ne_nil _)
    | cons d ds =>
        have hd : isDigit d = true := ofNat_digits (n := port.toNat) (by rw [hds]; simp)
        have hskip : afterSign (chr ' ' :: (d :: ds ++ [chr '\n'])) =
            afterSign (d :: (ds ++ [chr '\n'])) := rfl
        rw [hskip, afterSign_of_isDigit hd]
        rfl
  have hdigits : (ofNat port.toNat ++ [chr '\n']).takeWhile isDigit = ofNat port.toNat :=
    (takeWhile_append_stop (fun b hb => ofNat_digits hb) (by decide) []).1
  have hlt : port.toNat < 65536 := port.toNat_lt
  have hclamp : clampLL port.toNat = port.toNat := by
    rw [clampLL, llongMin, llongMax]
    omega
  refine ⟨by rw [hblank, hdigits], ?_⟩
  simp only [number, hblank, hdigits, ofNat_ne_nil, if_false, value_ofNat, signed,
    Bool.false_eq_true, hclamp]

theorem not_isSpace_of_mem_inetNtoa {sAddr : UInt32} {b : UInt8} (h : b ∈ inetNtoa sAddr) :
    (!isSpace b) = true := by
  rcases mem_inetNtoa h with h | rfl
  · rw [not_isSpace_of_isDigit h]
    rfl
  · decide

/-- The two words of a line are read as they were written. -/
theorem sscanfLine_storeLine (it : BdPeer) :
    sscanfLine (storeLine it) =
      some (inetNtoa it.mPeerId.addr.sAddr, ntohs it.mPeerId.addr.sinPort) := by
  rcases storeLine_plain it with ⟨text, hline, hplain, -⟩
  have hcstr : cstr (storeLine it) = storeLine it := by
    apply cstr_of_ne_zero
    intro b hb
    rw [hline, List.mem_append, List.mem_singleton] at hb
    rcases hb with hb | rfl
    · exact (hplain b hb).2
    · decide
  have hne : inetNtoa it.mPeerId.addr.sAddr ≠ [] := by
    intro h
    exact ofNat_ne_nil _ (List.append_eq_nil_iff.1 h).1
  -- the line starts with the address
  have hstart : (storeLine it).dropWhile isSpace = storeLine it := by
    cases haddr : inetNtoa it.mPeerId.addr.sAddr with
    | nil =>
        exact absurd haddr hne
    | cons b bs =>
        have hb : isSpace b = false := by
          have hmem : b ∈ inetNtoa it.mPeerId.addr.sAddr := by
            rw [haddr]
            exact List.mem_cons_self ..
          simpa using not_isSpace_of_mem_inetNtoa hmem
        rw [storeLine, haddr, List.cons_append, List.dropWhile_cons_of_neg (by simp [hb])]
  have haddr : ∀ b ∈ inetNtoa it.mPeerId.addr.sAddr, (!isSpace b) = true :=
    fun b hb => not_isSpace_of_mem_inetNtoa hb
  have hwords := takeWhile_append_stop haddr (c := chr ' ') (by decide)
    (ofNat (ntohs it.mPeerId.addr.sinPort).toNat ++ [chr '\n'])
  have hport := number_port (ntohs it.mPeerId.addr.sinPort)
  have hlow : UInt16.ofNat (((ntohs it.mPeerId.addr.sinPort).toNat : Int) % 65536).toNat =
      ntohs it.mPeerId.addr.sinPort := by
    have hlt : (ntohs it.mPeerId.addr.sinPort).toNat < 65536 :=
      (ntohs it.mPeerId.addr.sinPort).toNat_lt
    have hnat : (((ntohs it.mPeerId.addr.sinPort).toNat : Int) % 65536).toNat =
        (ntohs it.mPeerId.addr.sinPort).toNat := by omega
    rw [hnat, UInt16.ofNat_toNat]
  rw [sscanfLine, hcstr, hstart]
  simp only [storeLine, hwords.1, hwords.2, hport.1, hport.2, hne, ofNat_ne_nil, if_false, hlow]

/-- A line is read as the address that it was written for. -/
theorem readLine_storeLine (it : BdPeer) :
    readLine (storeLine it) =
      some (readPeer it.mPeerId.addr.sAddr it.mPeerId.addr.sinPort) := by
  rw [readLine, sscanfLine_storeLine]
  simp only [inetAton_inetNtoa, Option.map_some, ntohs_ntohs]

/-- With enough peers `writeStore` writes a file from which `reloadFromStore` restores their
addresses and ports in order; with fewer it leaves the file as it was. -/
theorem reloadFromStore_writeStore (store : List BdPeer) (file : Option (List UInt8)) :
    (9 * maxEntries ≤ 10 * store.length →
      (reloadFromStore (writeStore store true file)).1.map peerAddr = store.map peerAddr) ∧
    (10 * store.length < 9 * maxEntries →
      ∀ writable, writeStore store writable file = file) := by
  constructor
  · intro h
    have hwrite : writeStore store true file = some (store.flatMap storeLine) := by
      rw [writeStore, if_neg (by omega), if_pos rfl]
    have hread : (store.map storeLine).filterMap readLine =
        store.map (fun it => readPeer it.mPeerId.addr.sAddr it.mPeerId.addr.sinPort) := by
      rw [List.filterMap_map, ← List.filterMap_eq_map]
      congr 1
      funext it
      exact readLine_storeLine it
    calc
      (reloadFromStore (writeStore store true file)).1.map peerAddr =
          ((fgetsLines [] (lineSize - 1) (store.flatMap storeLine)).filterMap readLine).map
            peerAddr := by rw [hwrite, reloadFromStore]
      _ = (store.map (fun it =>
          readPeer it.mPeerId.addr.sAddr it.mPeerId.addr.sinPort)).map peerAddr := by
        rw [fgetsLines_flatMap, hread]
      _ = store.map peerAddr := by
        rw [List.map_map]
        rfl
  · intro h writable
    rw [writeStore, if_pos h]

theorem reloadFromStore_nine_hundred :
    (reloadFromStore (writeStore ((List.range 900).map peerAt) true none)).1.map peerAddr =
      ((List.range 900).map peerAt).map peerAddr :=
  (reloadFromStore_writeStore ((List.range 900).map peerAt) none).1 (by simp [maxEntries])

end BitDht
