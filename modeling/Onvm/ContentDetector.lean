import Onvm.Bytes

/-! The content type of a blob, as `content_detector.rs` reads it off the first bytes, and the file extension
that goes with it. -/

namespace ByteString

/-- `data[a..b]` of a byte string that is long enough. -/
def slice (data : Bytes) (a b : Nat) : Bytes := (data.take b).drop a

def windows (k : Nat) (data : Bytes) : List Bytes :=
  (List.range (data.length + 1 - k)).map fun i => (data.drop i).take k

theorem mem_windows {k : Nat} {data w : Bytes} : w ∈ windows k data ↔ w.length = k ∧ w <:+: data := by
  simp only [windows, List.mem_map, List.mem_range]
  constructor
  · rintro ⟨i, hi, rfl⟩
    refine ⟨?_, (List.take_prefix k _).isInfix.trans (List.drop_suffix i data).isInfix⟩
    simp only [List.length_take, List.length_drop]
    omega
  · rintro ⟨rfl, before, after, rfl⟩
    refine ⟨before.length, ?_, by simp⟩
    simp only [List.length_append]
    omega

theorem any_windows {k : Nat} {data text : Bytes} :
    (windows k data).any (· == text) = true ↔ text.length = k ∧ text <:+: data := by
  simp only [List.any_eq_true, beq_iff_eq, exists_eq_right, mem_windows]

theorem any_windows_of_length_ne {k : Nat} {text : Bytes} (h : text.length ≠ k) (data : Bytes) :
    (windows k data).any (· == text) = false := by
  rw [Bool.eq_false_iff, ne_eq, any_windows]
  exact fun hh => h hh.1

end ByteString

namespace Onvm

open ByteString

/-- A byte string literal `b"..."`. -/
def byteLiteral (text : String) : Bytes := text.toList.map fun c => UInt8.ofNat c.toNat

/-- The guard `len >= least && &data[a..b] == text`. -/
def hasAt (data : Bytes) (least a b : Nat) (text : String) : Bool :=
  decide (least ≤ data.length) && slice data a b == byteLiteral text

/-- `data.windows(k).any(|w| w == text)`. -/
def hasWindow (data : Bytes) (k : Nat) (text : String) : Bool := (windows k data).any (· == byteLiteral text)

def isTextByte (byte : UInt8) : Bool :=
  byte == 9 || byte == 10 || byte == 13 || (decide (32 ≤ byte) && decide (byte < 127))

def isLikelyText (data : Bytes) : Bool :=
  let sample := data.take (min 512 data.length)
  let textChars := sample.foldl (fun count byte => if isTextByte byte then count + 1 else count) 0
  decide (sample.length * 85 / 100 < textChars)

namespace ContentDetector

def octetStream : String := "application/octet-stream"
def wordDocument : String := "application/vnd.openxmlformats-officedocument.wordprocessingml.document"
def spreadsheet : String := "application/vnd.openxmlformats-officedocument.spreadsheetml.sheet"
def presentation : String := "application/vnd.openxmlformats-officedocument.presentationml.presentation"

def detectImage (data : Bytes) : Option String :=
  if hasAt data 8 0 8 "\x89PNG\r\n\x1a\n" then some "image/png"
  else if hasAt data 3 0 3 "\xFF\xD8\xFF" then some "image/jpeg"
  else if hasAt data 6 0 6 "GIF87a" || hasAt data 6 0 6 "GIF89a" then some "image/gif"
  else if hasAt data 12 0 4 "RIFF" && hasAt data 12 8 12 "WEBP" then some "image/webp"
  else if hasAt data 2 0 2 "BM" then some "image/bmp"
  else if hasAt data 4 0 4 "\x00\x00\x01\x00" then some "image/x-icon"
  else if hasAt data 12 0 4 "II\x2A\x00" || hasAt data 12 0 4 "MM\x00\x2A" then some "image/tiff"
  else if hasAt data 12 4 12 "ftypavif" then some "image/avif"
  else if hasAt data 12 4 12 "ftypheic" then some "image/heic"
  else if hasAt data 12 4 12 "ftypheif" then some "image/heif"
  else if hasAt data 12 0 12 "\xFF\x0A\x00\x00\x00\x00\x00\x00\x00\x00\x00\x00" then some "image/jxl"
  else if hasAt data 5 0 5 "<?xml" then
    if hasWindow data 4 "<svg" then some "image/svg+xml" else some "application/xml"
  else if hasAt data 4 0 4 "<svg" then some "image/svg+xml"
  else none

def detectMp4 (data : Bytes) : String :=
  let brand := slice data 4 12
  if brand = byteLiteral "ftypmp42" ∨ brand = byteLiteral "ftypisom" ∨ brand = byteLiteral "ftypM4V " ∨
      brand = byteLiteral "ftypqt  " then "video/mp4"
  else if brand = byteLiteral "ftyp" ∧ hasAt data 12 8 11 "M4A" then "audio/x-m4a"
  else octetStream

def detectOgg (data : Bytes) : String :=
  if hasAt data 36 28 35 "\x01vorbis" then "audio/ogg"
  else if hasAt data 36 28 35 "OpusHea" then "audio/opus"
  else "video/ogg"

def detectMedia (data : Bytes) : Option String :=
  if hasAt data 12 0 4 "\x00\x00\x00\x20" then some (detectMp4 data)
  else if hasAt data 12 0 4 "\x00\x00\x00\x18" && hasAt data 12 4 12 "ftypqt  " then some "video/quicktime"
  else if hasAt data 4 0 4 "\x1a\x45\xDF\xA3" then some "video/x-matroska"
  else if hasAt data 3 0 3 "FLV" then some "video/x-flv"
  else if hasAt data 12 0 4 "RIFF" && hasAt data 12 8 12 "AVI " then some "video/x-msvideo"
  else if hasAt data 12 0 4 "RIFF" && hasAt data 12 8 12 "WAVE" then some "audio/wav"
  else if hasAt data 4 0 4 "\x00\x00\x01\xBA" then some "video/mpeg"
  else if hasAt data 4 0 4 "OggS" then some (detectOgg data)
  else if hasAt data 3 0 3 "ID3" then some "audio/mpeg"
  else if hasAt data 2 0 2 "\xFF\xFB" then some "audio/mpeg"
  else if hasAt data 2 0 2 "\xFF\xF1" then some "audio/aac"
  else if hasAt data 4 0 4 "fLaC" then some "audio/flac"
  else if hasAt data 4 0 4 "MThd" then some "audio/midi"
  else none

def detectZip (data : Bytes) : String :=
  if 50 < data.length then
    if hasWindow data 19 "word/document.xml" then wordDocument
    else if hasWindow data 17 "xl/workbook.xml" then spreadsheet
    else if hasWindow data 22 "ppt/presentation.xml" then presentation
    else "application/zip"
  else "application/zip"

def detectCompound (data : Bytes) : String :=
  if 2080 < data.length then
    if hasWindow (data.drop 2080) 4 "Word" then "application/msword"
    else if hasWindow (data.drop 2080) 5 "Excel" then "application/vnd.ms-excel"
    else if hasWindow (data.drop 2080) 10 "PowerPoint" then "application/vnd.ms-powerpoint"
    else "application/x-msi"
  else "application/x-msi"

def detectArchive (data : Bytes) : Option String :=
  if hasAt data 5 0 5 "%PDF-" then some "application/pdf"
  else if hasAt data 4 0 4 "PK\x03\x04" then some (detectZip data)
  else if hasAt data 6 0 6 "7z\xBC\xAF\x27\x1C" then some "application/x-7z-compressed"
  else if hasAt data 7 0 7 "Rar!\x1A\x07\x00" then some "application/x-rar-compressed"
  else if hasAt data 2 0 2 "\x1f\x8b" then some "application/gzip"
  else if hasAt data 3 0 3 "BZh" then some "application/x-bzip2"
  else if hasAt data 6 0 6 "\xFD7zXZ\x00" then some "application/x-xz"
  else if hasAt data 262 257 262 "ustar" then some "application/x-tar"
  else if hasAt data 2 0 2 "MZ" then some "application/x-msdownload"
  else if hasAt data 8 0 8 "\xD0\xCF\x11\xE0\xA1\xB1\x1A\xE1" then some (detectCompound data)
  else if hasAt data 4 0 4 "!<ar" then
    if hasAt data 21 8 20 "debian-bina" then some "application/x-deb" else some octetStream
  else if hasAt data 2 0 2 "\xED\xAB" then some "application/x-rpm"
  else if hasAt data 4 0 4 "x\x01\x73\x0D" then some "application/x-apple-diskimage"
  else if hasAt data 4 0 4 "\x7FELF" then
    if data[16]? = some 2 then some "application/vnd.appimage" else some octetStream
  else none

def detectDocument (data : Bytes) : Option String :=
  if hasAt data 4 0 4 "wOFF" then some "font/woff"
  else if hasAt data 4 0 4 "wOF2" then some "font/woff2"
  else if hasAt data 5 0 5 "\x00\x01\x00\x00\x00" then some "font/ttf"
  else if hasAt data 4 0 4 "OTTO" then some "font/otf"
  else if hasAt data 4 0 4 "CWS\x08" then some "application/x-shockwave-flash"
  else if hasAt data 8 0 8 "\x00asm\x01\x00\x00\x00" then some "application/wasm"
  else if hasAt data 5 0 5 "<!DOC" then some "text/html"
  else if hasAt data 5 0 5 "<html" then some "text/html"
  else if hasAt data 6 0 6 "<HTML" then some "text/html"
  else none

def detectText (data : Bytes) : Option String :=
  if isLikelyText data then
    if data.head? = some 0x7B then some "application/json"
    else if hasAt data 3 0 3 "---" then some "application/yaml"
    else if hasWindow data 9 "#!/bin/sh" || hasWindow data 9 "#!/bin/ba" then some "text/x-sh"
    else if hasWindow data 15 "#!/usr/bin/pyth" then some "text/x-python"
    else some "text/plain"
  else none

def detect (data : Bytes) : String :=
  if data.isEmpty then octetStream
  else ((((detectImage data).or (detectMedia data)).or (detectArchive data)).or
    ((detectDocument data).or (detectText data))).getD octetStream

def mimeToExt : List (String × String) :=
  [("image/png", "png"), ("image/jpeg", "jpg"), ("image/gif", "gif"), ("image/webp", "webp"),
   ("image/svg+xml", "svg"), ("image/bmp", "bmp"), ("image/x-icon", "ico"), ("image/tiff", "tiff"),
   ("image/avif", "avif"), ("image/apng", "apng"), ("image/heic", "heic"), ("image/heif", "heif"),
   ("image/jxl", "jxl"),
   ("video/mp4", "mp4"), ("video/webm", "webm"), ("video/ogg", "ogv"), ("video/x-matroska", "mkv"),
   ("video/quicktime", "mov"), ("video/x-msvideo", "avi"), ("video/x-flv", "flv"), ("video/3gpp", "3gp"),
   ("video/mp2t", "ts"), ("video/mpeg", "mpeg"),
   ("audio/mpeg", "mp3"), ("audio/ogg", "ogg"), ("audio/wav", "wav"), ("audio/webm", "weba"),
   ("audio/flac", "flac"), ("audio/aac", "aac"), ("audio/opus", "opus"), ("audio/midi", "midi"),
   ("audio/x-m4a", "m4a"),
   ("application/pdf", "pdf"), ("application/zip", "zip"), ("application/x-7z-compressed", "7z"),
   ("application/x-rar-compressed", "rar"), ("application/gzip", "gz"), ("application/x-bzip2", "bz2"),
   ("application/x-xz", "xz"), ("application/x-tar", "tar"),
   ("application/vnd.microsoft.portable-executable", "exe"), ("application/x-msdownload", "exe"),
   ("application/x-msi", "msi"), ("application/x-deb", "deb"), ("application/x-rpm", "rpm"),
   ("application/x-apple-diskimage", "dmg"), ("application/vnd.appimage", "appimage"),
   ("application/json", "json"), ("application/xml", "xml"), ("application/yaml", "yaml"),
   ("application/toml", "toml"), ("application/wasm", "wasm"),
   (wordDocument, "docx"), (spreadsheet, "xlsx"), (presentation, "pptx"),
   ("application/msword", "doc"), ("application/vnd.ms-excel", "xls"), ("application/vnd.ms-powerpoint", "ppt"),
   ("application/vnd.oasis.opendocument.text", "odt"),
   ("application/vnd.oasis.opendocument.spreadsheet", "ods"),
   ("application/vnd.oasis.opendocument.presentation", "odp"),
   ("application/rtf", "rtf"), ("application/x-shockwave-flash", "swf"), ("application/java-archive", "jar"),
   ("application/x-iso9660-image", "iso"),
   ("text/plain", "txt"), ("text/html", "html"), ("text/css", "css"), ("text/javascript", "js"),
   ("text/csv", "csv"), ("text/markdown", "md"), ("text/xml", "xml"), ("text/x-python", "py"),
   ("text/x-java", "java"), ("text/x-c", "c"), ("text/x-c++", "cpp"), ("text/x-rust", "rs"),
   ("text/x-go", "go"), ("text/x-php", "php"), ("text/x-ruby", "rb"), ("text/x-sh", "sh"),
   ("font/ttf", "ttf"), ("font/otf", "otf"), ("font/woff", "woff"), ("font/woff2", "woff2")]

def getExtension (mimeType : String) : String := (mimeToExt.reverse.lookup mimeType).getD "bin"

section Lengths

variable {data : Bytes} {least a b k : Nat} {text : String}

theorem hasWindow_eq_false (h : (byteLiteral text).length ≠ k) : hasWindow data k text = false :=
  any_windows_of_length_ne h data

end Lengths

theorem detectZip_eq (data : Bytes) : detectZip data = "application/zip" := by
  have hword : hasWindow data 19 "word/document.xml" = false := hasWindow_eq_false (by decide)
  have hsheet : hasWindow data 17 "xl/workbook.xml" = false := hasWindow_eq_false (by decide)
  have hslides : hasWindow data 22 "ppt/presentation.xml" = false := hasWindow_eq_false (by decide)
  simp [detectZip, hword, hsheet, hslides]

theorem detectImage_of_zip (rest : Bytes) : detectImage (byteLiteral "PK\x03\x04" ++ rest) =
    if hasAt (byteLiteral "PK\x03\x04" ++ rest) 12 4 12 "ftypavif" then some "image/avif"
    else if hasAt (byteLiteral "PK\x03\x04" ++ rest) 12 4 12 "ftypheic" then some "image/heic"
    else if hasAt (byteLiteral "PK\x03\x04" ++ rest) 12 4 12 "ftypheif" then some "image/heif"
    else none := by
  simp [detectImage, hasAt, slice, byteLiteral]

theorem detectMedia_of_zip (rest : Bytes) : detectMedia (byteLiteral "PK\x03\x04" ++ rest) = none := by
  simp [detectMedia, hasAt, slice, byteLiteral]

theorem detectArchive_of_zip (rest : Bytes) :
    detectArchive (byteLiteral "PK\x03\x04" ++ rest) = some "application/zip" := by
  simp [detectArchive, hasAt, slice, byteLiteral, detectZip_eq]

theorem detect_of_zip {data : Bytes} (hzip : byteLiteral "PK\x03\x04" <+: data) : detect data =
    if hasAt data 12 4 12 "ftypavif" then "image/avif"
    else if hasAt data 12 4 12 "ftypheic" then "image/heic"
    else if hasAt data 12 4 12 "ftypheif" then "image/heif"
    else "application/zip" := by
  obtain ⟨rest, rfl⟩ := hzip
  have hne : ¬ (byteLiteral "PK\x03\x04" ++ rest).isEmpty = true := by simp [byteLiteral]
  rw [detect, if_neg hne, detectImage_of_zip, detectMedia_of_zip, detectArchive_of_zip]
  split_ifs <;> rfl

theorem detect_mem_of_zip {data : Bytes} (hzip : byteLiteral "PK\x03\x04" <+: data) :
    detect data ∈ ["image/avif", "image/heic", "image/heif", "application/zip"] := by
  rw [detect_of_zip hzip]
  split_ifs <;> simp

theorem detect_eq_zip_iff {data : Bytes} (hlen : 50 < data.length)
    (hzip : byteLiteral "PK\x03\x04" <+: data) : detect data = "application/zip" ↔
      slice data 4 12 ≠ byteLiteral "ftypavif" ∧ slice data 4 12 ≠ byteLiteral "ftypheic" ∧
        slice data 4 12 ≠ byteLiteral "ftypheif" := by
  have hbrand (text : String) : hasAt data 12 4 12 text = true ↔ slice data 4 12 = byteLiteral text := by
    have hle : 12 ≤ data.length := by omega
    simp [hasAt, hle]
  simp only [detect_of_zip hzip, hbrand]
  split_ifs with havif hheic hheif <;> simp [*]

def officeFormat (data : Bytes) : String × String :=
  if byteLiteral "word/document.xml" <:+: data then (wordDocument, "docx")
  else if byteLiteral "xl/workbook.xml" <:+: data then (spreadsheet, "xlsx")
  else if byteLiteral "ppt/presentation.xml" <:+: data then (presentation, "pptx")
  else ("application/zip", "zip")

/-- An archive comes out right just if it is not an office document at all and its header cannot be taken
for that of an image. -/
theorem office_format_detected_iff {data : Bytes} (hlen : 50 < data.length)
    (hzip : byteLiteral "PK\x03\x04" <+: data) :
    (detect data, getExtension (detect data)) = officeFormat data ↔
      (¬ byteLiteral "word/document.xml" <:+: data ∧ ¬ byteLiteral "xl/workbook.xml" <:+: data ∧
        ¬ byteLiteral "ppt/presentation.xml" <:+: data) ∧
      slice data 4 12 ≠ byteLiteral "ftypavif" ∧ slice data 4 12 ≠ byteLiteral "ftypheic" ∧
        slice data 4 12 ≠ byteLiteral "ftypheif" := by
  have hmem := detect_mem_of_zip hzip
  constructor
  · intro h
    have hdetect : detect data = (officeFormat data).1 := congrArg Prod.fst h
    have hword : ¬ byteLiteral "word/document.xml" <:+: data := by
      intro hin
      rw [hdetect, officeFormat, if_pos hin] at hmem
      exact absurd hmem (by decide)
    have hsheet : ¬ byteLiteral "xl/workbook.xml" <:+: data := by
      intro hin
      rw [hdetect, officeFormat, if_neg hword, if_pos hin] at hmem
      exact absurd hmem (by decide)
    have hslides : ¬ byteLiteral "ppt/presentation.xml" <:+: data := by
      intro hin
      rw [hdetect, officeFormat, if_neg hword, if_neg hsheet, if_pos hin] at hmem
      exact absurd hmem (by decide)
    rw [officeFormat, if_neg hword, if_neg hsheet, if_neg hslides] at hdetect
    exact ⟨⟨hword, hsheet, hslides⟩, (detect_eq_zip_iff hlen hzip).mp hdetect⟩
  · rintro ⟨⟨hword, hsheet, hslides⟩, hbrand⟩
    have hext : getExtension "application/zip" = "zip" := by decide +kernel
    rw [(detect_eq_zip_iff hlen hzip).mpr hbrand, hext, officeFormat, if_neg hword, if_neg hsheet,
      if_neg hslides]

def zippedDocument (name : String) : Bytes :=
  byteLiteral "PK\x03\x04" ++ List.replicate 30 0 ++ byteLiteral name

theorem plain_archive_detected :
    (detect (zippedDocument "word/settings.xml"), getExtension (detect (zippedDocument "word/settings.xml"))) =
      officeFormat (zippedDocument "word/settings.xml") :=
  (office_format_detected_iff (by decide +kernel) (by decide +kernel)).mpr (by decide +kernel)

/-- An archive with the name of a text document in it, one byte over the size at which names are looked for. -/
theorem word_document_taken_for_archive :
    50 < (zippedDocument "word/document.xml").length ∧
    byteLiteral "PK\x03\x04" <+: zippedDocument "word/document.xml" ∧
    byteLiteral "word/document.xml" <:+: zippedDocument "word/document.xml" ∧
    detect (zippedDocument "word/document.xml") = "application/zip" ∧
    getExtension (detect (zippedDocument "word/document.xml")) = "zip" := by
  have hzip : byteLiteral "PK\x03\x04" <+: zippedDocument "word/document.xml" := by decide +kernel
  have hlen : 50 < (zippedDocument "word/document.xml").length := by decide +kernel
  have hdetect : detect (zippedDocument "word/document.xml") = "application/zip" :=
    (detect_eq_zip_iff hlen hzip).mpr (by decide +kernel)
  refine ⟨hlen, hzip, by decide +kernel, hdetect, ?_⟩
  rw [hdetect]
  decide +kernel

end ContentDetector
end Onvm
