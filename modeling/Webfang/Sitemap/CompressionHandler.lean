import Webfang.Library.Text

/-!
# Compressed sitemaps

`infrastructure/crawler/compression_handler.rs`: what a body is compressed with is told by its first
bytes, and for brotli, which has no magic number, by the URL. The second look, at what the first layer
came to, takes the same hint again. The decoders of `async-compression` are a parameter.
-/
namespace Webfang.Sitemap

open Library

inductive CompressionType where
  | none
  | gzip
  | deflate
  | brotli
  | zstd
  deriving DecidableEq, Repr

inductive CompressionError where
  | decompressionFailed (message : String)
  | sizeLimitExceeded (bytes : Nat)
  deriving DecidableEq, Repr

/-- The bytes that a decoder yields and the error that ends them, if one does; and `str::to_lowercase`. -/
structure CompressionCrates where
  read : CompressionType → List UInt8 → List UInt8 × Option String
  toLowercase : String → String

structure CompressionHandler where
  crates : CompressionCrates
  maxDecompressedSize : Nat

namespace CompressionHandler

variable (handler : CompressionHandler)

/-! ### Detection -/

def isGzip (content : List UInt8) : Bool := content.take 2 == [0x1f, 0x8b]

def isZstd (content : List UInt8) : Bool :=
  content.take 4 == [0x28, 0xb5, 0x2f, 0xfd] || content.take 4 == [0x37, 0xa4, 0x30, 0xec]

/-- `url.to_lowercase().ends_with(extension)`. -/
def hints (url extension : String) : Bool :=
  (Text.stripSuffix (handler.crates.toLowercase url) extension).isSome

def detectCompression (content : List UInt8) (url : String) : List CompressionType :=
  let formats := (if isGzip content then [.gzip] else []) ++ (if isZstd content then [.zstd] else [])
  if formats.isEmpty && handler.hints url ".br" then [.brotli] else formats

/-! ### Decompression -/

/-- What the decoder yields below the limit: `take` does not ask it for more. -/
def decompress (format : CompressionType) (content : List UInt8) : Except CompressionError (List UInt8) :=
  let (yielded, error) := handler.crates.read format content
  if handler.maxDecompressedSize ≤ yielded.length then .error (.sizeLimitExceeded handler.maxDecompressedSize)
  else
    match error with
    | some message => .error (.decompressionFailed message)
    | none => .ok yielded

def decompressGzip := handler.decompress .gzip

def decompressDeflate := handler.decompress .deflate

def decompressBrotli := handler.decompress .brotli

def decompressZstd := handler.decompress .zstd

def decompressFormats (content : List UInt8) :
    List CompressionType → Except CompressionError (List UInt8)
  | [] => .ok content
  | .gzip :: _ => handler.decompressGzip content
  | .deflate :: _ => handler.decompressDeflate content
  | .brotli :: _ => handler.decompressBrotli content
  | .zstd :: _ => handler.decompressZstd content
  | .none :: rest => decompressFormats content rest

def detectAndDecompress (content : List UInt8) (url : String) : Except CompressionError (List UInt8) :=
  let formats := handler.detectCompression content url
  if formats.isEmpty then .ok content
  else
    match handler.decompressFormats content formats with
    | .error e => .error e
    | .ok decompressed =>
      -- at most one layer more
      let nestedFormats := handler.detectCompression decompressed url
      if nestedFormats.isEmpty then .ok decompressed
      else handler.decompressFormats decompressed nestedFormats

/-! ### What a body is taken for -/

/-- The format whose magic number the body starts with. -/
def magic (content : List UInt8) : Option CompressionType :=
  if isGzip content then some .gzip else if isZstd content then some .zstd else .none

/-- By its magic number, or else by the URL. -/
def takenFor (url : String) (content : List UInt8) : Option CompressionType :=
  (magic content).or (if handler.hints url ".br" then some .brotli else .none)

theorem not_isZstd_of_isGzip {content : List UInt8} (gzip : isGzip content = true) :
    isZstd content = false := by
  match content with
  | [] => rfl
  | first :: rest =>
    cases rest with
    | nil => simp [isGzip] at gzip
    | cons second rest =>
      simp only [isGzip, List.take_succ_cons, List.take_zero, beq_iff_eq, List.cons.injEq, and_true] at gzip
      simp [isZstd, gzip.1]

theorem detectCompression_eq (content : List UInt8) (url : String) :
    handler.detectCompression content url = (handler.takenFor url content).toList := by
  unfold detectCompression takenFor magic
  cases gzip : isGzip content with
  | true => simp [not_isZstd_of_isGzip gzip]
  | false =>
    cases isZstd content with
    | true => simp
    | false => cases handler.hints url ".br" <;> simp

theorem takenFor_ne_none (url : String) (content : List UInt8) :
    handler.takenFor url content ≠ some CompressionType.none := by
  unfold takenFor magic
  split
  next => nofun
  next =>
    split
    next => nofun
    next => split <;> nofun

theorem decompressFormats_eq {format : CompressionType} (content : List UInt8)
    (proper : format ≠ CompressionType.none) :
    handler.decompressFormats content [format] = handler.decompress format content := by
  cases format with
  | none => exact absurd rfl proper
  | gzip => rfl
  | deflate => rfl
  | brotli => rfl
  | zstd => rfl

theorem decompress_eq_ok_iff {format : CompressionType} {content payload : List UInt8} :
    handler.decompress format content = .ok payload ↔
      handler.crates.read format content = (payload, none) ∧
        payload.length < handler.maxDecompressedSize := by
  unfold decompress
  cases handler.crates.read format content with
  | mk yielded error =>
    dsimp only
    split
    next large =>
      refine iff_of_false nofun ?_
      rintro ⟨same, small⟩
      cases same
      exact absurd large (Nat.not_le.mpr small)
    next small =>
      cases error with
      | some message => simp
      | none =>
        rw [Except.ok.injEq, Prod.mk.injEq, and_iff_left rfl]
        constructor
        · rintro rfl
          exact ⟨rfl, Nat.lt_of_not_le small⟩
        · exact And.left

/-- A body that is taken for no format is handed back. -/
theorem detectAndDecompress_of_plain {content : List UInt8} {url : String}
    (plain : handler.takenFor url content = none) :
    handler.detectAndDecompress content url = .ok content := by
  unfold detectAndDecompress
  rw [detectCompression_eq, plain]
  rfl

/-- What the second look does with what the first layer came to. -/
def second (url : String) (content : List UInt8) : Except CompressionError (List UInt8) :=
  match handler.takenFor url content with
  | none => .ok content
  | some format => handler.decompress format content

theorem detectAndDecompress_of_taken {content : List UInt8} {url : String} {format : CompressionType}
    (taken : handler.takenFor url content = some format) :
    handler.detectAndDecompress content url =
      (handler.decompress format content).bind (handler.second url) := by
  have proper (content : List UInt8) (format : CompressionType)
      (taken : handler.takenFor url content = some format) : format ≠ CompressionType.none :=
    fun same => handler.takenFor_ne_none url content (same ▸ taken)
  unfold detectAndDecompress
  rw [detectCompression_eq, taken, Option.toList_some]
  dsimp only
  rw [decompressFormats_eq _ _ (proper content format taken)]
  cases handler.decompress format content with
  | error e => rfl
  | ok decompressed =>
    simp only [List.isEmpty_cons, Bool.false_eq_true, if_false, Except.bind, second, detectCompression_eq]
    cases next : handler.takenFor url decompressed with
    | none => rfl
    | some nested => exact decompressFormats_eq _ _ (proper decompressed nested next)

/-! ### Encoded payloads -/

/-- A stream of the format with this content. One of gzip or zstd starts with its magic number. -/
structure Stream (format : CompressionType) (encoded payload : List UInt8) : Prop where
  read : handler.crates.read format encoded = (payload, none)
  marked : format = .gzip ∨ format = .zstd → magic encoded = some format

/-- The formats that are to be decompressed behind this URL. -/
def Supported (url : String) : CompressionType → Prop
  | .gzip => True
  | .zstd => True
  | .brotli => handler.hints url ".br" = true
  | .deflate => False
  | .none => False

/-- The decoders of the formats with magic numbers reject a brotli stream: it is not in their formats. -/
def RejectsBrotli : Prop :=
  ∀ format encoded payload other, format = .gzip ∨ format = .zstd →
    handler.crates.read .brotli encoded = (payload, none) → handler.crates.read format encoded ≠ (other, none)

variable {handler}

theorem magic_eq_some {content : List UInt8} {format : CompressionType}
    (marked : magic content = some format) : format = .gzip ∨ format = .zstd := by
  unfold magic at marked
  split at marked
  next =>
    cases marked
    exact .inl rfl
  next =>
    split at marked
    next =>
      cases marked
      exact .inr rfl
    next => cases marked

/-- A supported stream is taken for what it is, unless it is one of brotli with a magic number. -/
theorem takenFor_of_stream {url : String} {format : CompressionType} {encoded payload : List UInt8}
    (supported : handler.Supported url format) (stream : handler.Stream format encoded payload)
    (unmarked : format = .brotli → magic encoded = none) : handler.takenFor url encoded = some format := by
  unfold takenFor
  cases format with
  | none => exact supported.elim
  | deflate => exact supported.elim
  | gzip => rw [stream.marked (.inl rfl), Option.some_or]
  | zstd => rw [stream.marked (.inr rfl), Option.some_or]
  | brotli =>
    have hinted : handler.hints url ".br" = true := supported
    rw [unmarked rfl, Option.none_or, if_pos hinted]

/-- A brotli stream with a magic number is refused, also below another layer. -/
theorem second_ne_ok {url : String} {format : CompressionType} {encoded payload : List UInt8}
    (rejects : handler.RejectsBrotli) (stream : handler.Stream format encoded payload)
    (marked : ¬ (format = .brotli → magic encoded = none)) (other : List UInt8) :
    handler.second url encoded ≠ .ok other := by
  obtain ⟨rfl, some_mark⟩ := Classical.not_imp.mp marked
  obtain ⟨mark, here⟩ := Option.ne_none_iff_exists'.mp some_mark
  unfold second takenFor
  rw [here, Option.some_or]
  intro decompressed
  exact rejects mark encoded payload other (magic_eq_some here) stream.read
    (handler.decompress_eq_ok_iff.mp decompressed).1

theorem not_hints_brotli {url extension : String} {last : Char} (ends : extension.toList.getLast? = some last)
    (other : last ≠ 'r') (hinted : handler.hints url extension = true) : handler.hints url ".br" = false := by
  by_contra brotli
  rw [Bool.not_eq_false] at brotli
  obtain ⟨front, stripped⟩ := Option.isSome_iff_exists.mp hinted
  obtain ⟨front', stripped'⟩ := Option.isSome_iff_exists.mp brotli
  have same := (Text.stripSuffix_eq_some_iff.mp stripped).symm.trans
    (Text.stripSuffix_eq_some_iff.mp stripped')
  have lasts := congrArg (fun text => text.toList.getLast?) same
  simp only [String.toList_append, List.getLast?_append, ends] at lasts
  exact other (Option.some.inj lasts)

/-! ### What is restored -/

variable {url : String} {payload encoded mid : List UInt8} {format outer inner : CompressionType}

/-- The second look at a payload that is plain by now takes it for brotli where the URL hints at that. -/
theorem second_of_plain_iff (plain : magic payload = none)
    (small : payload.length < handler.maxDecompressedSize) :
    handler.second url payload = .ok payload ↔
      (handler.hints url ".br" = true → handler.Stream .brotli payload payload) := by
  unfold second takenFor
  rw [plain, Option.none_or]
  cases handler.hints url ".br" with
  | false => simp
  | true =>
    simp only [if_true, forall_const]
    rw [decompress_eq_ok_iff, and_iff_left small]
    exact ⟨fun read => ⟨read, fun marked => by simp at marked⟩, fun stream => stream.read⟩

/-- Through one layer: what is below it is looked at once more. -/
theorem detectAndDecompress_eq_ok_iff (rejects : handler.RejectsBrotli)
    (supported : handler.Supported url format) (stream : handler.Stream format encoded mid) :
    handler.detectAndDecompress encoded url = .ok payload ↔
      (format = .brotli → magic encoded = none) ∧ mid.length < handler.maxDecompressedSize ∧
        handler.second url mid = .ok payload := by
  by_cases unmarked : format = .brotli → magic encoded = none
  · rw [and_iff_right unmarked,
      detectAndDecompress_of_taken handler (takenFor_of_stream supported stream unmarked)]
    constructor
    · intro restored
      cases first : handler.decompress format encoded with
      | error e =>
        rw [first] at restored
        cases restored
      | ok decompressed =>
        obtain ⟨read, small⟩ := handler.decompress_eq_ok_iff.mp first
        obtain rfl : decompressed = mid := (Prod.mk.inj (read.symm.trans stream.read)).1
        rw [first] at restored
        exact ⟨small, restored⟩
    · rintro ⟨small, restored⟩
      rw [handler.decompress_eq_ok_iff.mpr ⟨stream.read, small⟩]
      exact restored
  · refine iff_of_false (fun restored => ?_) fun all => unmarked all.1
    -- the first look is as good as a second one
    have refused := @second_ne_ok handler url _ _ _ rejects stream unmarked
    unfold second at refused
    cases here : handler.takenFor url encoded with
    | none =>
      rw [here] at refused
      exact refused encoded rfl
    | some taken =>
      rw [here] at refused
      rw [detectAndDecompress_of_taken handler here] at restored
      cases first : handler.decompress taken encoded with
      | error e =>
        rw [first] at restored
        cases restored
      | ok decompressed => exact refused decompressed first

theorem detectAndDecompress_once_iff (rejects : handler.RejectsBrotli) (plain : magic payload = none)
    (small : payload.length < handler.maxDecompressedSize) (supported : handler.Supported url format)
    (stream : handler.Stream format encoded payload) :
    handler.detectAndDecompress encoded url = .ok payload ↔
      (format = .brotli → magic encoded = none) ∧
        (handler.hints url ".br" = true → handler.Stream .brotli payload payload) := by
  rw [detectAndDecompress_eq_ok_iff rejects supported stream, second_of_plain_iff plain small,
    and_iff_right small]

theorem detectAndDecompress_twice_iff (rejects : handler.RejectsBrotli)
    (small : payload.length < handler.maxDecompressedSize) (supported : handler.Supported url outer)
    (supported' : handler.Supported url inner) (stream : handler.Stream outer encoded mid)
    (stream' : handler.Stream inner mid payload) :
    handler.detectAndDecompress encoded url = .ok payload ↔
      (outer = .brotli → magic encoded = none) ∧ mid.length < handler.maxDecompressedSize ∧
        (inner = .brotli → magic mid = none) := by
  rw [detectAndDecompress_eq_ok_iff rejects supported stream]
  refine and_congr_right fun _ => and_congr_right fun _ => ?_
  by_cases unmarked : inner = .brotli → magic mid = none
  · refine iff_of_true ?_ unmarked
    unfold second
    rw [takenFor_of_stream supported' stream' unmarked]
    exact handler.decompress_eq_ok_iff.mpr ⟨stream'.read, small⟩
  · exact iff_of_false (second_ne_ok rejects stream' unmarked payload) unmarked

theorem detectAndDecompress_unencoded (plain : magic payload = none)
    (hinted : handler.hints url ".gz" = true ∨ handler.hints url ".gzip" = true ∨
      handler.hints url ".zst" = true) :
    handler.detectAndDecompress payload url = .ok payload := by
  have silent : handler.hints url ".br" = false := by
    rcases hinted with gz | gzip | zst
    · exact not_hints_brotli rfl (by decide) gz
    · exact not_hints_brotli rfl (by decide) gzip
    · exact not_hints_brotli rfl (by decide) zst
  refine detectAndDecompress_of_plain handler ?_
  unfold takenFor
  rw [plain, silent]
  rfl

/-- When a payload comes back from what it is sent as: without an encoding, in one format, or in two. -/
theorem detectAndDecompress_restores_iff (rejects : handler.RejectsBrotli) (url : String)
    (payload : List UInt8) (small : payload.length < handler.maxDecompressedSize)
    (plain : magic payload = none) :
    (handler.hints url ".gz" = true ∨ handler.hints url ".gzip" = true ∨ handler.hints url ".zst" = true →
      handler.detectAndDecompress payload url = .ok payload) ∧
    (∀ format encoded, handler.Supported url format → handler.Stream format encoded payload →
      (handler.detectAndDecompress encoded url = .ok payload ↔
        (format = .brotli → magic encoded = none) ∧
          (handler.hints url ".br" = true → handler.Stream .brotli payload payload))) ∧
    ∀ outer inner encoded mid, handler.Supported url outer → handler.Supported url inner →
      handler.Stream outer encoded mid → handler.Stream inner mid payload →
      (handler.detectAndDecompress encoded url = .ok payload ↔
        (outer = .brotli → magic encoded = none) ∧ mid.length < handler.maxDecompressedSize ∧
          (inner = .brotli → magic mid = none)) :=
  ⟨detectAndDecompress_unencoded plain,
    fun _ _ supported stream => detectAndDecompress_once_iff rejects plain small supported stream,
    fun _ _ _ _ supported supported' stream stream' =>
      detectAndDecompress_twice_iff rejects small supported supported' stream stream'⟩

end CompressionHandler

/-! A small sitemap, compressed with gzip and with brotli. -/

namespace SmallSitemap

/-- `<urlset/>`. -/
def payload : List UInt8 := [60, 117, 114, 108, 115, 101, 116, 47, 62]

def gzipped : List UInt8 :=
  [31, 139, 8, 0, 0, 0, 0, 0, 2, 3, 179, 41, 45, 202, 41, 78, 45, 209, 183, 3, 0, 219, 206, 114, 252,
    9, 0, 0, 0]

def brotli : List UInt8 := [11, 4, 128, 60, 117, 114, 108, 115, 101, 116, 47, 62, 3]

/-- The decoders, on these bytes. -/
def crates : CompressionCrates where
  read format content :=
    if format = .gzip ∧ content = gzipped ∨ format = .brotli ∧ content = brotli then (payload, none)
    else ([], some "Decompression failed")
  toLowercase := Text.toAsciiLowercase

def handler : CompressionHandler := ⟨crates, 100 * 1024 * 1024⟩

theorem read_brotli_iff {content other : List UInt8} :
    handler.crates.read .brotli content = (other, none) ↔ content = brotli ∧ other = payload := by
  simp only [handler, crates]
  split
  next found => simp_all [eq_comm]
  next absent => simp_all

theorem rejectsBrotli : handler.RejectsBrotli := by
  intro format encoded decoded other marked read same
  obtain ⟨rfl, -⟩ := read_brotli_iff.mp read
  have refused : (handler.crates.read format brotli).2.isSome = true := by
    rcases marked with rfl | rfl <;> rfl
  rw [same] at refused
  cases refused

theorem stream_gzipped : handler.Stream .gzip gzipped payload := ⟨by decide, fun _ => by decide⟩

theorem stream_brotli : handler.Stream .brotli brotli payload :=
  ⟨read_brotli_iff.mpr ⟨rfl, rfl⟩, fun marked => by simp at marked⟩

theorem small : payload.length < handler.maxDecompressedSize := by decide

/-- Behind a URL that does not hint at brotli. -/
theorem gzipped_restored :
    handler.detectAndDecompress gzipped "https://example.com/sitemap.xml.gz" = .ok payload := by
  have restores := (CompressionHandler.detectAndDecompress_restores_iff rejectsBrotli
    "https://example.com/sitemap.xml.gz" payload small (by decide)).2.1
  have silent : handler.hints "https://example.com/sitemap.xml.gz" ".br" = false := by decide
  refine (restores .gzip gzipped trivial stream_gzipped).mpr ⟨nofun, fun hinted => ?_⟩
  rw [silent] at hinted
  cases hinted

/-- Behind a URL that does, the second look takes the plain payload for brotli, whatever it came in. -/
theorem plain_taken_for_brotli :
    handler.RejectsBrotli ∧ payload.length < handler.maxDecompressedSize ∧
      CompressionHandler.magic payload = none ∧
      handler.Supported "https://example.com/sitemap.xml.br" .brotli ∧
      handler.Stream .brotli brotli payload ∧ handler.Stream .gzip gzipped payload ∧
      handler.detectAndDecompress brotli "https://example.com/sitemap.xml.br" =
        .error (.decompressionFailed "Decompression failed") ∧
      handler.detectAndDecompress gzipped "https://example.com/sitemap.xml.br" =
        .error (.decompressionFailed "Decompression failed") := by
  have hinted : handler.Supported "https://example.com/sitemap.xml.br" .brotli := by
    change handler.hints "https://example.com/sitemap.xml.br" ".br" = true
    decide
  exact ⟨rejectsBrotli, small, by decide, hinted, stream_brotli, stream_gzipped, by decide,
    by decide⟩

end SmallSitemap

end Webfang.Sitemap
