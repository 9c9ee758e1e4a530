import DasEdge.Http.HclientRsp
import Mathlib.Algebra.Order.Ring.Nat

/-!
# Downloading a file

`hclient_download_data` of `httpclient.c`, in a session that `hclient_create` has just made. A read
has the bytes that it returns; one without bytes, or the end of the reads, is a close, an error or a
timeout. The disk has room for so many bytes of the file: what a `write` returns is not looked at.
-/

namespace DasEdge.Http

open DasEdge.Library

/-- The results of a download. -/
inductive HclientErr
  | ok
  | rcv
  | file
  deriving DecidableEq

/-- Whether the file can be opened, and how many bytes of it the disk takes. -/
structure HttpDisk where
  opens : Bool
  room : ℕ

/-- The loop of the download: what has been written, and what remains. -/
def downloadLoop (written : List UInt8) (remain : ℤ) : List (List UInt8) → List UInt8 × ℤ
  | [] => (written, remain)
  | read :: reads =>
    if 0 < remain ∧ read ≠ [] then
      downloadLoop (written ++ read.take remain.toNat) (remain - min remain read.length) reads
    else (written, remain)

/-- `hclient_download_data`: its result, and the file at the path. -/
def hclientDownloadData (disk : HttpDisk) (file : Option (List UInt8)) (reads : List (List UInt8)) :
    Option (HclientErr × Option (List UInt8)) :=
  match reads with
  | [] => some (.rcv, file)
  | first :: reads =>
    if first = [] then some (.rcv, file)
    else
      (hclientRspParse .init (first.takeWhile (· ≠ 0))).map fun rsp =>
        if rsp.code = 200 then
          if disk.opens then
            let body := match rsp.data with
              | none => []
              | some data => first.drop data
            let result := downloadLoop body (rsp.length - body.length) reads
            if 0 < result.2 then (.file, none) else (.ok, some (result.1.take disk.room))
          else (.file, file)
        else (.rcv, file)

/-- The reads of a connection that brings a response, or the beginning of one, into a buffer. -/
structure HttpArrival (bufferLength : UInt16) where
  response : HttpResponse
  reads : List (List UInt8)
  fits : ∀ read ∈ reads, read ≠ [] ∧ read.length ≤ bufferLength.toNat
  arrives : reads.flatten <+: response.header ++ response.body

variable {n : UInt16}

/-- The first read. -/
def HttpArrival.first (d : HttpArrival n) : List UInt8 := d.reads.headD []

/-- The bytes of the body that arrive. -/
def HttpArrival.arrived (d : HttpArrival n) : List UInt8 :=
  d.reads.flatten.drop d.response.header.length

/-- A download that succeeds has all of the body, and the file has that. -/
def DownloadIntact (disk : HttpDisk) (file : Option (List UInt8)) (d : HttpArrival n) : Prop :=
  ∀ written, hclientDownloadData disk file d.reads = some (.ok, written) →
    d.response.length ≤ d.arrived.length ∧ written = some (d.response.body.take d.response.length)

/-- The first read ends between two lines of the header. -/
def HttpArrival.CutBetweenLines (d : HttpArrival n) : Prop :=
  ∃ k, d.first = d.response.statusLine ++ textLines (d.response.fields.take k)

/-- The first read does not end between two lines of the header, unless the body is empty. When it
has the whole header and the body arrives, the length of the body is an `int`, the disk has room for
it, and no more than the body is in the first read. -/
def HttpArrival.Meets (disk : HttpDisk) (d : HttpArrival n) : Prop :=
  (d.CutBetweenLines → d.response.length = 0) ∧
    (d.response.header <+: d.first → min (2 ^ 31 - 1) d.response.length ≤ d.arrived.length →
      d.response.length < 2 ^ 31 ∧ d.response.length ≤ disk.room ∧
        (d.first.length ≤ d.response.header.length + d.response.length ∨ disk.room ≤ d.response.length))

/-- A loop writes what arrives, as far as something remains. -/
theorem downloadLoop_eq (written : List UInt8) (remain : ℕ) {reads : List (List UInt8)}
    (hreads : ∀ read ∈ reads, read ≠ []) :
    downloadLoop written remain reads = (written ++ reads.flatten.take remain,
      (remain : ℤ) - min remain reads.flatten.length) := by
  induction reads generalizing written remain with
  | nil => simp [downloadLoop]
  | cons read reads ih =>
    rw [List.forall_mem_cons] at hreads
    rw [downloadLoop]
    by_cases hremain : 0 < remain
    · have hrest : (remain : ℤ) - min (remain : ℤ) read.length = (remain - read.length : ℕ) := by omega
      rw [if_pos ⟨by omega, hreads.1⟩, hrest, ih _ _ hreads.2, List.flatten_cons, Int.toNat_natCast,
        List.take_append,
        List.append_assoc, List.length_append]
      congr 1
      omega
    · have hzero : remain = 0 := by omega
      rw [if_neg (by omega), hzero, List.take_zero, List.append_nil]
      simp

/-- A loop with nothing left to read writes nothing. -/
theorem downloadLoop_done (written : List UInt8) {remain : ℤ} (hremain : remain ≤ 0)
    (reads : List (List UInt8)) :
    downloadLoop written remain reads = (written, remain) := by
  cases reads with
  | nil => rfl
  | cons read reads => rw [downloadLoop, if_neg fun h => absurd h.1 (by omega)]

/-- A download whose first read has the whole header, and `part` of the body. -/
theorem hclientDownloadData_header (disk : HttpDisk) (file : Option (List UInt8))
    (response : HttpResponse) (part : List UInt8)
    {reads : List (List UInt8)} (hreads : ∀ read ∈ reads, read ≠ []) (hopens : disk.opens = true) :
    hclientDownloadData disk file ((response.header ++ part) :: reads) =
      if (part ++ reads.flatten).length < min (2 ^ 31 - 1) response.length then some (.file, none)
      else some (.ok, some (((part ++ reads.flatten).take
        (max part.length (min (2 ^ 31 - 1) response.length))).take disk.room)) := by
  have hne : response.header ++ part ≠ [] := by
    rw [HttpResponse.header, List.append_assoc]
    exact response.statusLine_append_ne_nil _
  have htext : (response.header ++ part).takeWhile (· ≠ 0) = response.header ++
      part.takeWhile (· ≠ 0) :=
    List.takeWhile_append_of_pos response.header_text
  have hlength : min (2 ^ 31 - 1) (response.length : ℤ) =
    (min (2 ^ 31 - 1) response.length : ℕ) := by omega
  rw [hclientDownloadData, if_neg hne, htext, hclientRspParse_header, Option.map_some]
  simp only [if_true, hopens, List.drop_left, hlength]
  generalize min (2 ^ 31 - 1) response.length = length
  rcases Nat.lt_or_ge length part.length with hmore | hless
  · rw [downloadLoop_done part (by omega), if_neg (by simp only; omega),
      if_neg (by rw [List.length_append]; omega), Nat.max_eq_left (Nat.le_of_lt hmore), List.take_left]
  · have hremain : (length : ℤ) - part.length = (length - part.length : ℕ) := by omega
    have htake : (part ++ reads.flatten).take length =
        part ++ reads.flatten.take (length - part.length) := by
      rw [List.take_append, List.take_of_length_le hless]
    rw [hremain, downloadLoop_eq part _ hreads, List.length_append, Nat.max_eq_right hless, htake]
    simp only
    split
    · rw [if_pos (by omega)]
    · rw [if_neg (by omega)]

/-- A download whose first read ends between two lines of the header succeeds with an empty file. -/
theorem hclientDownloadData_between (disk : HttpDisk) (file : Option (List UInt8))
    (response : HttpResponse) (k : ℕ)
    (reads : List (List UInt8)) (hopens : disk.opens = true) :
    hclientDownloadData disk file
      ((response.statusLine ++ textLines (response.fields.take k)) :: reads) =
      some (.ok, some []) := by
  have htext : (response.statusLine ++ textLines (response.fields.take k)).takeWhile (· ≠ 0) =
      response.statusLine ++ textLines (response.fields.take k) :=
    List.takeWhile_eq_self_iff.mpr
      (response.statusLine_text fun field hfield =>
        (response.field_lines field (List.mem_of_mem_take hfield)).2)
  rw [hclientDownloadData, if_neg (response.statusLine_append_ne_nil _), htext,
    hclientRspParse_between, Option.map_some]
  simp only [if_true, hopens, List.length_nil]
  rw [downloadLoop_done [] (by decide)]
  simp

/-- A download is not successful when the file cannot be opened. -/
theorem hclientDownloadData_closed {disk : HttpDisk} (hopens : disk.opens = false)
    (file : Option (List UInt8))
    (reads : List (List UInt8)) {written : Option (List UInt8)} :
    hclientDownloadData disk file reads ≠ some (.ok, written) := by
  intro h
  rw [hclientDownloadData.eq_def] at h
  split at h
  · cases h
  · split at h
    · cases h
    · obtain ⟨rsp, -, hrsp⟩ := Option.map_eq_some_iff.mp h
      rw [hopens] at hrsp
      split at hrsp
      · cases hrsp
      · cases hrsp

/-- A successful download has the whole header in the first read, or it ends between two lines. -/
theorem HttpArrival.ok_cases {disk : HttpDisk} {file written : Option (List UInt8)} {d : HttpArrival n}
    (h : hclientDownloadData disk file d.reads = some (.ok, written)) :
    d.response.header <+: d.first ∨ d.CutBetweenLines := by
  have harrives := d.arrives
  rw [first, CutBetweenLines, first]
  cases hreads : d.reads with
  | nil =>
    rw [hreads] at h
    cases h
  | cons first reads =>
    rw [hreads] at h harrives
    have hbegins : first <+: d.response.header ++ d.response.body :=
      (List.prefix_append first reads.flatten).trans harrives
    rw [List.headD_cons]
    rcases List.prefix_or_prefix_of_prefix hbegins
      (List.prefix_append d.response.header d.response.body) with hpiece | hwhole
    · by_cases heq : first = d.response.header
      · exact .inl (by rw [heq])
      · right
        rw [hclientDownloadData] at h
        split at h
        · cases h
        · obtain ⟨rsp, hrsp, hcode⟩ := Option.map_eq_some_iff.mp h
          have htext : first.takeWhile (· ≠ 0) = first :=
            List.takeWhile_eq_self_iff.mpr fun c hc => d.response.header_text c (hpiece.subset hc)
          rw [htext] at hrsp
          refine hclientRspParse_piece d.response hpiece heq hrsp ?_
          by_contra hbad
          rw [if_neg hbad] at hcode
          cases hcode
    · exact .inl hwhole

/-- A first read with some bytes is the first of the reads. -/
theorem HttpArrival.reads_eq (d : HttpArrival n) (h : d.first ≠ []) :
    d.reads = d.first :: d.reads.tail := by
  rw [first] at h ⊢
  cases hreads : d.reads with
  | nil =>
    rw [hreads] at h
    exact absurd rfl h
  | cons first reads => rfl

/-- What arrives of the body is a beginning of it. -/
theorem HttpArrival.arrived_begins (d : HttpArrival n) : d.arrived <+: d.response.body := by
  have h := d.arrives.drop d.response.header.length
  rwa [List.drop_left] at h

/-- A first read that ends between two lines does not have the whole header. -/
theorem HttpArrival.CutBetweenLines.not_header {d : HttpArrival n} (h : d.CutBetweenLines) :
    ¬ d.response.header <+: d.first := by
  obtain ⟨k, hk⟩ := h
  intro hbegins
  have hle := hbegins.length_le
  have hlines : textLines d.response.fields = textLines (d.response.fields.take k) ++
      textLines (d.response.fields.drop k) := by
    rw [textLines, textLines, textLines, ← List.flatMap_append, List.take_append_drop]
  rw [hk, HttpResponse.header, hlines] at hle
  simp only [List.length_append, crlf, List.length_cons, List.length_nil] at hle
  omega

/-- A download whose first read ends between two lines is only right when the body is empty. -/
theorem HttpArrival.CutBetweenLines.intact_iff {disk : HttpDisk} (hopens : disk.opens = true)
    (file : Option (List UInt8))
    {d : HttpArrival n} (h : d.CutBetweenLines) : DownloadIntact disk file d ↔
    d.response.length = 0 := by
  obtain ⟨k, hk⟩ := h
  have hreads := d.reads_eq (by rw [hk]; exact d.response.statusLine_append_ne_nil _)
  rw [DownloadIntact, hreads, hk,
    hclientDownloadData_between disk file d.response k d.reads.tail hopens]
  constructor
  · intro hintact
    obtain ⟨hlength, hempty⟩ := hintact _ rfl
    have hless := Nat.le_trans hlength d.arrived_begins.length_le
    have htake := congrArg List.length (Option.some.inj hempty)
    rw [List.length_take, List.length_nil] at htake
    omega
  · intro hzero written hwritten
    rw [hzero, List.take_zero]
    exact ⟨Nat.zero_le _, by rw [← (Prod.mk.inj (Option.some.inj hwritten)).2]⟩

/-- When a part of a body is written, what the disk takes is the body of the given length. -/
theorem take_room_eq_iff {body arrived : List UInt8} {room part length : ℕ} (hbegins : arrived <+: body)
    (hpart : part ≤ arrived.length) (hsize : part < 2 ^ 31 - 1)
    (hlength : min (2 ^ 31 - 1) length ≤ arrived.length) :
    (length ≤ arrived.length ∧ (arrived.take (max part (min (2 ^ 31 - 1) length))).take room =
      body.take length) ↔
      length < 2 ^ 31 ∧ length ≤ room ∧ (part ≤ length ∨ room ≤ length) := by
  have hbody := hbegins.length_le
  constructor
  · rintro ⟨hall, heq⟩
    have hlengths := congrArg List.length heq
    rw [List.length_take, List.length_take, List.length_take] at hlengths
    omega
  · rintro ⟨hint, hroom, hfirst⟩
    have hall : length ≤ arrived.length := by omega
    have htake : min room (max part (min (2 ^ 31 - 1) length)) = length := by omega
    refine ⟨hall, ?_⟩
    obtain ⟨rest, rfl⟩ := hbegins
    rw [List.take_take, htake, List.take_append_of_le_length hall]

/-- A download whose first read has the whole header is right when the length of the body is an
`int`, the disk has room for it, and no more than the body is in the first read, or when the body
does not arrive. -/
theorem HttpArrival.intact_header_iff {disk : HttpDisk} (hopens : disk.opens = true)
    (file : Option (List UInt8))
    {d : HttpArrival n} (h : d.response.header <+: d.first) :
    DownloadIntact disk file d ↔
      (min (2 ^ 31 - 1) d.response.length ≤ d.arrived.length →
        d.response.length < 2 ^ 31 ∧ d.response.length ≤ disk.room ∧
          (d.first.length ≤ d.response.header.length + d.response.length ∨
          disk.room ≤ d.response.length)) := by
  obtain ⟨part, hpart⟩ := h
  have hfirst : d.first ≠ [] := by
    rw [← hpart, HttpResponse.header, List.append_assoc]
    exact d.response.statusLine_append_ne_nil _
  have hreads := d.reads_eq hfirst
  generalize d.reads.tail = reads at hreads
  have hfits := d.fits
  rw [hreads, List.forall_mem_cons, ← hpart] at hfits
  have hsize := UInt16.toNat_lt n
  have hread := hfits.1.2
  rw [List.length_append] at hread
  have harrived : d.arrived = part ++ reads.flatten := by
    rw [arrived, hreads, List.flatten_cons, ← hpart, List.append_assoc, List.drop_left]
  have hroom :=
    @take_room_eq_iff d.response.body d.arrived disk.room part.length d.response.length
    d.arrived_begins
    (by rw [harrived, List.length_append]; omega) (by omega)
  have hlength : d.first.length ≤ d.response.header.length + d.response.length ↔
      part.length ≤ d.response.length := by
    rw [← hpart, List.length_append, Nat.add_le_add_iff_left]
  rw [hlength, DownloadIntact, hreads, ← hpart,
    hclientDownloadData_header disk file d.response part (fun read hread => (hfits.2 read hread).1)
      hopens, ← harrived]
  split
  · next hless =>
    refine ⟨fun _ hmore => absurd hmore (Nat.not_le_of_lt hless), fun _ written hwritten => ?_⟩
    cases hwritten
  · next hmore =>
    rw [← hroom (Nat.not_lt.mp hmore)]
    constructor
    · intro hintact _
      exact ⟨(hintact _ rfl).1, Option.some.inj (hintact _ rfl).2⟩
    · intro hright written hwritten
      obtain ⟨hall, htake⟩ := hright (Nat.not_lt.mp hmore)
      rw [← (Prod.mk.inj (Option.some.inj hwritten)).2, htake]
      exact ⟨hall, rfl⟩

/-- A successful download has made the file of the whole body exactly when the file cannot be opened
at all, or the first read does not end between two lines of the header and takes no more than the
body, and the length of the body fits. -/
theorem hclient_download_intact_iff (disk : HttpDisk) (file : Option (List UInt8)) (d : HttpArrival n) :
    DownloadIntact disk file d ↔ (disk.opens = true → d.Meets disk) := by
  cases hopens : disk.opens with
  | false =>
    refine ⟨fun _ h => absurd h Bool.false_ne_true, fun _ written hwritten => ?_⟩
    exact absurd hwritten (hclientDownloadData_closed hopens file d.reads)
  | true =>
    have hmeets : (true = true → d.Meets disk) ↔ d.Meets disk := ⟨fun h => h rfl, fun h _ => h⟩
    rw [hmeets, HttpArrival.Meets]
    by_cases hheader : d.response.header <+: d.first
    · have hcut : ¬ d.CutBetweenLines := fun hcut => hcut.not_header hheader
      rw [HttpArrival.intact_header_iff hopens file hheader]
      exact ⟨fun h => ⟨fun hc => absurd hc hcut, fun _ => h⟩, fun h => h.2 hheader⟩
    · by_cases hcut : d.CutBetweenLines
      · rw [hcut.intact_iff hopens file]
        exact ⟨fun h => ⟨fun _ => h, fun hh => absurd hh hheader⟩, fun h => h.1 hcut⟩
      · refine ⟨fun _ => ⟨fun hc => absurd hc hcut, fun hh => absurd hh hheader⟩,
          fun _ written hwritten => ?_⟩
        rcases HttpArrival.ok_cases hwritten with hh | hc
        · exact absurd hh hheader
        · exact absurd hc hcut

/-- A field that gives a length of one byte. -/
theorem isContentLength_one : IsContentLength 1 (contentLengthPre ++ [0x20, 0x31]) := by
  refine ⟨contentLengthPre, [0x20], [0x31], [], rfl, rfl, ?_, ?_, ?_, ?_, ?_⟩
  all_goals decide +kernel

/-- A response with one byte of content. -/
def responseOne : HttpResponse where
  reason := [0x4F, 0x4B]
  fields := [contentLengthPre ++ [0x20, 0x31]]
  length := 1
  body := [0x41]
  reason_line := by decide +kernel
  field_lines := by decide +kernel
  declared := ⟨_, List.mem_singleton_self _, isContentLength_one⟩
  agreed := by
    intro field hfield _
    rw [List.mem_singleton.mp hfield]
    exact isContentLength_one

/-- The response comes in two reads, the first of which ends with the line of the length. -/
def arrivalOne : HttpArrival 8192 where
  response := responseOne
  reads := [responseOne.statusLine ++ textLines (responseOne.fields.take 1), crlf ++ responseOne.body]
  fits := by decide +kernel
  arrives := by decide +kernel

/-- The download of the one byte succeeds, and the file is empty. -/
theorem hclient_download_empty :
    hclientDownloadData { opens := true, room := 100 } none arrivalOne.reads = some (.ok, some []) ∧
      ¬ DownloadIntact { opens := true, room := 100 } none arrivalOne := by
  have hempty := hclientDownloadData_between { opens := true, room := 100 } none responseOne 1
    [crlf ++ responseOne.body] rfl
  refine ⟨hempty, fun hintact => ?_⟩
  have hfile := (hintact _ hempty).2
  cases hfile

end DasEdge.Http
