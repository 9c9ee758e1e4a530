import DasEdge.Board.RtCrc32
import DasEdge.Library.WordBytes
import DasEdge.Sdccp.Dm101Aes

/-!
# DM101 packets

`send_pkg` and `read_pkg` of `dm_lib.c`. A packet is a head with a CRC-8, and when there is a
payload, the payload and its CRC-32. Numbers are in network order. The payload is encrypted in the
buffer it lies in, with a key that is made of the authentication and the time in the head.
`read_pkg` takes head, payload and CRC-32 with separate calls of `getdata`, which may give fewer
bytes than asked for. What it writes to `recvbuf` is noted, and the memory is taken to go on behind
it.
-/

namespace DasEdge.Sdccp

open DasEdge.Library DasEdge.Board

/-- `CRC8_TAB` -/
def crc8Tab : List UInt8 :=
  [
    0x00, 0x07, 0x0E, 0x09, 0x1C, 0x1B, 0x12, 0x15, 0x38, 0x3F, 0x36, 0x31, 0x24, 0x23, 0x2A, 0x2D, 
    0x70, 0x77, 0x7E, 0x79, 0x6C, 0x6B, 0x62, 0x65, 0x48, 0x4F, 0x46, 0x41, 0x54, 0x53, 0x5A, 0x5D, 
    0xE0, 0xE7, 0xEE, 0xE9, 0xFC, 0xFB, 0xF2, 0xF5, 0xD8, 0xDF, 0xD6, 0xD1, 0xC4, 0xC3, 0xCA, 0xCD, 
    0x90, 0x97, 0x9E, 0x99, 0x8C, 0x8B, 0x82, 0x85, 0xA8, 0xAF, 0xA6, 0xA1, 0xB4, 0xB3, 0xBA, 0xBD, 
    0xC7, 0xC0, 0xC9, 0xCE, 0xDB, 0xDC, 0xD5, 0xD2, 0xFF, 0xF8, 0xF1, 0xF6, 0xE3, 0xE4, 0xED, 0xEA, 
    0xB7, 0xB0, 0xB9, 0xBE, 0xAB, 0xAC, 0xA5, 0xA2, 0x8F, 0x88, 0x81, 0x86, 0x93, 0x94, 0x9D, 0x9A, 
    0x27, 0x20, 0x29, 0x2E, 0x3B, 0x3C, 0x35, 0x32, 0x1F, 0x18, 0x11, 0x16, 0x03, 0x04, 0x0D, 0x0A, 
    0x57, 0x50, 0x59, 0x5E, 0x4B, 0x4C, 0x45, 0x42, 0x6F, 0x68, 0x61, 0x66, 0x73, 0x74, 0x7D, 0x7A, 
    0x89, 0x8E, 0x87, 0x80, 0x95, 0x92, 0x9B, 0x9C, 0xB1, 0xB6, 0xBF, 0xB8, 0xAD, 0xAA, 0xA3, 0xA4, 
    0xF9, 0xFE, 0xF7, 0xF0, 0xE5, 0xE2, 0xEB, 0xEC, 0xC1, 0xC6, 0xCF, 0xC8, 0xDD, 0xDA, 0xD3, 0xD4, 
    0x69, 0x6E, 0x67, 0x60, 0x75, 0x72, 0x7B, 0x7C, 0x51, 0x56, 0x5F, 0x58, 0x4D, 0x4A, 0x43, 0x44, 
    0x19, 0x1E, 0x17, 0x10, 0x05, 0x02, 0x0B, 0x0C, 0x21, 0x26, 0x2F, 0x28, 0x3D, 0x3A, 0x33, 0x34, 
    0x4E, 0x49, 0x40, 0x47, 0x52, 0x55, 0x5C, 0x5B, 0x76, 0x71, 0x78, 0x7F, 0x6A, 0x6D, 0x64, 0x63, 
    0x3E, 0x39, 0x30, 0x37, 0x22, 0x25, 0x2C, 0x2B, 0x06, 0x01, 0x08, 0x0F, 0x1A, 0x1D, 0x14, 0x13, 
    0xAE, 0xA9, 0xA0, 0xA7, 0xB2, 0xB5, 0xBC, 0xBB, 0x96, 0x91, 0x98, 0x9F, 0x8A, 0x8D, 0x84, 0x83, 
    0xDE, 0xD9, 0xD0, 0xD7, 0xC2, 0xC5, 0xCC, 0xCB, 0xE6, 0xE1, 0xE8, 0xEF, 0xFA, 0xFD, 0xF4, 0xF3
  ]

/-- `dm_crc8` -/
def dmCrc8 (crc : UInt8) (bytes : List UInt8) : UInt8 :=
  bytes.foldl (fun crc byte => crc8Tab.getD (crc ^^^ byte).toNat 0) crc

/-- `MAGIC` -/
def dm101Magic : Vector UInt8 4 := #v[0x53, 0x49, 0x4F, 0x54]

/-- `MSG_VERSION` -/
def dm101MsgVersion : UInt8 := 1

/-- `F_CRYPT` -/
def fCrypt : UInt8 := 1

/-- `HEAD_LEN` -/
def dm101HeadLen : ℕ := 52

/-- `OFFSIZE_MFLAG` -/
def offsizeMflag : ℕ := 11

/-- `OFFSIZE_TIME_STAMP` -/
def offsizeTimeStamp : ℕ := 16

/-- The sizes of `sendbuf` and `recvbuf`. -/
def dm101SendbufSize : ℕ := 8192 + dm101HeadLen
def dm101RecvbufSize : ℕ := 4096 + dm101HeadLen

/-- `struct Head` -/
structure Dm101Head where
  magic : Vector UInt8 4
  ver : UInt8
  type : UInt8
  sn : UInt16
  msgcode : UInt16
  mflag : UInt8
  format : UInt8
  payloadLength : UInt32
  timestamp : UInt64
  srcId : UInt64
  destId : UInt64
  token : UInt64
  code : UInt16
  reserve : UInt8
  dmCrc8 : UInt8
  deriving DecidableEq

/-- `struct Dm101pkg`; `pload_buf` is none or leads to a place in `sendbuf` or `recvbuf`. -/
structure Dm101Pkg where
  head : Dm101Head
  ploadBuf : Option ℕ
  dmCrc32 : UInt32

/-- The fields of `struct dm101_cfg` that are used. -/
structure Dm101Cfg where
  crypt : UInt8
  auth : Vector UInt8 8
  srdid : UInt64

/-- The bytes of a head in front of the CRC-8, in network order. -/
def Dm101Head.front (head : Dm101Head) : List UInt8 :=
  head.magic.toList ++ (head.ver :: head.type ::
    (networkBytes 2 head.sn.toNat ++ (networkBytes 2 head.msgcode.toNat ++
    (head.format :: head.mflag ::
    (networkBytes 4 head.payloadLength.toNat ++ (networkBytes 8 head.timestamp.toNat ++
      (networkBytes 8 head.srcId.toNat ++
      (networkBytes 8 head.destId.toNat ++ (networkBytes 8 head.token.toNat ++
        (networkBytes 2 head.code.toNat ++ [head.reserve]))))))))))

/-- The bytes of a head. -/
def Dm101Head.bytes (head : Dm101Head) : List UInt8 := head.front ++ [head.dmCrc8]

/-- `DM_MD5_Final_16` -/
def dmMd5Final16 (digest : AesBlock) : List UInt8 := List.ofFn fun i : Fin 8 => digest ⟨4 + i, by omega⟩

/-- `head_format_oat`: the head that it writes to the buffer. -/
def headFormatOat (crypto : Dm101Crypto) (auth : Vector UInt8 8) (utc : UInt64) (head : Dm101Head) :
    Dm101Head :=
  let head := { head with magic := dm101Magic, ver := dm101MsgVersion, timestamp := utc }
  let token :=
    dmMd5Final16 (crypto.md5 (networkBytes 8 head.srcId.toNat ++
    (networkBytes 8 head.timestamp.toNat ++
    (auth.toList ++ networkBytes 2 head.msgcode.toNat))))
  let head := { head with token := UInt64.ofNat (readNetwork (fun n => token.getD n 0) 0 8) }
  { head with dmCrc8 := dmCrc8 0 head.front }

/-- `oat_pick_head`: the result, and the head. -/
def oatPickHead (buf : ℕ → UInt8) : ℤ × Dm101Head :=
  let head : Dm101Head :=
    { magic := Vector.ofFn fun i => buf i, ver := buf 4, type := buf 5,
      sn := UInt16.ofNat (readNetwork buf 6 2),
      msgcode := UInt16.ofNat (readNetwork buf 8 2), format := buf 10, mflag := buf offsizeMflag,
      payloadLength := UInt32.ofNat (readNetwork buf 12 4), timestamp :=
      UInt64.ofNat (readNetwork buf offsizeTimeStamp 8),
      srcId := UInt64.ofNat (readNetwork buf 24 8), destId := UInt64.ofNat (readNetwork buf 32 8),
      token := UInt64.ofNat (readNetwork buf 40 8), code := UInt16.ofNat (readNetwork buf 48 2),
      reserve := buf 50, dmCrc8 := buf 51 }
  (if dmCrc8 0 ((List.range (dm101HeadLen - 1)).map buf) ≠ head.dmCrc8 then -1 else 0, head)

/-- `make_aec_key` with the bytes of the time. -/
def makeAecKey (crypto : Dm101Crypto) (auth : Vector UInt8 8) (timestamp : List UInt8) : AesBlock :=
  crypto.md5 (auth.toList ++ timestamp)

/-- `make_aec_key` with the time in the head at the start of a buffer. -/
def makeAecKeyAt (crypto : Dm101Crypto) (auth : Vector UInt8 8) (buf : ℕ → UInt8) : AesBlock :=
  makeAecKey crypto auth ((List.range 8).map fun i => buf (offsizeTimeStamp + i))

/-- What `send_pkg` leaves in the packet and the buffer, what it posts, and what it returns. -/
structure Dm101Send where
  pkg : Dm101Pkg
  sendbuf : ℕ → UInt8
  posted : List UInt8
  ret : ℤ

/-- The head that `send_pkg` leaves in the packet. -/
def sendPkgHead (cfg : Dm101Cfg) (pkg : Dm101Pkg) : Dm101Head :=
  let mflag := if cfg.crypt ≠ 0 then pkg.head.mflag ||| fCrypt else pkg.head.mflag
  { pkg.head with
    srcId := cfg.srdid
    mflag := mflag
    payloadLength :=
      if 0 < pkg.head.payloadLength ∧ pkg.ploadBuf.isSome ∧
      mflag &&& fCrypt ≠ 0 then pkcs7EnPaddingTotalsize pkg.head.payloadLength
      else pkg.head.payloadLength }

/-- `send_pkg`, when there is a buffer. `postdata` says what the posting returns. -/
def sendPkg (crypto : Dm101Crypto) (cfg : Dm101Cfg) (utc : UInt64) (postdata : List UInt8 → ℤ)
    (sendbuf : ℕ → UInt8)
    (pkg : Dm101Pkg) : Dm101Send :=
  -- the length of the payload that is encrypted and posted is not the one in the head
  let payloadLength := pkg.head.payloadLength
  let head := sendPkgHead cfg pkg
  let sendbuf := copyOver sendbuf 0 (headFormatOat crypto cfg.auth utc head).bytes
  let post pkg sendbuf sendcnt : Dm101Send :=
    let posted := (List.range sendcnt).map sendbuf
    ⟨pkg, sendbuf, posted, if postdata posted < 0 then -1 else 0⟩
  match pkg.ploadBuf with
  | some place =>
    if 0 < payloadLength then
      let (sendbuf, payloadLength) :=
        if sendbuf offsizeMflag &&& fCrypt ≠ 0 then
          dmAesEncryptCjy crypto sendbuf place payloadLength (makeAecKeyAt crypto cfg.auth sendbuf)
        else (sendbuf, payloadLength)
      let dmCrc32 := ulRTCrc32 0 ((List.range payloadLength.toNat).map fun i => sendbuf (place + i))
      let sendcnt := dm101HeadLen + payloadLength.toNat
      post ⟨head, pkg.ploadBuf, dmCrc32⟩ (copyOver sendbuf sendcnt (networkBytes 4 dmCrc32.toNat))
        (sendcnt + 4)
    else post { pkg with head := head } sendbuf dm101HeadLen
  | none => post { pkg with head := head } sendbuf dm101HeadLen

/-- The `getdata` of a context: the bytes that it gives, if it does not fail. -/
structure Dm101Getdata (σ : Type) where
  getdata : σ → UInt32 → Option (List UInt8) × σ
  getdata_length : ∀ s count bytes, (getdata s count).1 = some bytes → bytes.length ≤ count.toNat

/-- What `read_pkg` returns, what it leaves in the packet and in `recvbuf`, the places of `recvbuf`
that it writes, each the first one with how many there are, and what is left to read. -/
structure Dm101Read (σ : Type) where
  ret : ℤ
  pkg : Dm101Pkg
  recvbuf : ℕ → UInt8
  writes : List (ℕ × ℕ)
  state : σ

/-- What `read_pkg` returns for a payload. -/
def dm101RecvCnt (payloadLength : UInt32) : ℤ := (52 + payloadLength + 4).toInt32.toInt

/-- The rest of `read_pkg` once the CRC-32 is right: the payload is decrypted, and a null character
is put behind it. -/
def readPkgAccepted {σ : Type} (crypto : Dm101Crypto) (auth : Vector UInt8 8)
    (headBuf recvbuf : ℕ → UInt8) (pkg : Dm101Pkg)
    (writes : List (ℕ × ℕ)) (s : σ) : Dm101Read σ :=
  let nDataLen := pkg.head.payloadLength
  let (recvbuf, payloadLength, writes) :=
    if pkg.head.mflag &&& fCrypt ≠ 0 then
      let (recvbuf, payloadLength) :=
        dmAesDecryptCjy crypto recvbuf 0 nDataLen (makeAecKeyAt crypto auth headBuf)
      (recvbuf, payloadLength, writes ++ [(nDataLen.toNat % 16, nDataLen.toNat / 16 * 16)])
    else (recvbuf, nDataLen, writes)
  { ret := dm101RecvCnt nDataLen,
    pkg := { pkg with head := { pkg.head with payloadLength := payloadLength } },
    recvbuf := Function.update recvbuf payloadLength.toNat 0, writes :=
    writes ++ [(payloadLength.toNat, 1)], state := s }

/-- `read_pkg`. On the stack `head_buf` has what was there before, and so has `dm_crc32` in the
packet. -/
def readPkg {σ : Type} (crypto : Dm101Crypto) (auth : Vector UInt8 8) (io : Dm101Getdata σ)
    (headBuf recvbuf : ℕ → UInt8)
    (pkg : Dm101Pkg) (s : σ) : Dm101Read σ :=
  match io.getdata s 52 with
  | (none, s) => ⟨-1, pkg, recvbuf, [], s⟩
  | (some bytes, s) =>
    let headBuf := copyOver headBuf 0 bytes
    -- that the CRC-8 is wrong is not looked at
    let pkg : Dm101Pkg := { pkg with head := (oatPickHead headBuf).2 }
    if (0 : UInt32) < pkg.head.payloadLength then
      let pkg := { pkg with ploadBuf := some 0 }
      match io.getdata s pkg.head.payloadLength with
      | (none, s) => ⟨-1, pkg, recvbuf, [], s⟩
      | (some bytes, s) =>
        let recvbuf := copyOver recvbuf 0 bytes
        let writes := [(0, bytes.length)]
        match io.getdata s 4 with
        | (none, s) => ⟨-1, pkg, recvbuf, writes, s⟩
        | (some bytes, s) =>
          let crcBuf := copyOver (fun n => (uint32Bytes pkg.dmCrc32).getD n 0) 0 bytes
          let pldmCrc32 := ulRTCrc32 0 ((List.range pkg.head.payloadLength.toNat).map recvbuf)
          let pkg := { pkg with dmCrc32 := UInt32.ofNat (readNetwork crcBuf 0 4) }
          if pldmCrc32 ≠ pkg.dmCrc32 then ⟨-1, pkg, recvbuf, writes, s⟩
          else readPkgAccepted crypto auth headBuf recvbuf pkg writes s
    else ⟨52, pkg, recvbuf, [], s⟩

end DasEdge.Sdccp
