import Webfang.Domain.Filename
import Webfang.Domain.Sha256Hex
import Webfang.Waf.Inspector

/-!
# The names of downloaded assets

`adapters/downloader/mod.rs` and `adapters/detector/mime.rs`: the directory an asset goes to, its
name under each naming strategy, and the name it gets when that one is taken.
-/
namespace Webfang.Assets

open Library
open Domain (Digest Sha256Hex)
open Domain.Filename (Url basename sanitizeFilenameComponent)
open Waf (Bytes)

inductive AssetType where
  | image
  | document
  | unknown
  deriving DecidableEq, Repr

def imageExtensions : List String :=
  ["jpg", "jpeg", "png", "gif", "webp", "svg", "bmp", "ico", "tiff", "tif"]

def documentExtensions : List String :=
  ["pdf", "doc", "docx", "xls", "xlsx", "ppt", "pptx", "csv", "odt", "ods", "odp", "epub", "rtf",
    "json", "xml"]

/-- `text.rsplit('.').next()`. -/
def afterLastDot (text : String) : String :=
  String.ofList (text.toList.reverse.takeWhile (· ≠ '.')).reverse

/-- The path of a parsed URL is ASCII. -/
def detectFromPath (path : String) : AssetType :=
  let extension := Text.toAsciiLowercase (afterLastDot path)
  if extension ∈ imageExtensions then .image
  else if extension ∈ documentExtensions then .document
  else .unknown

def mimeTypeToExtension (mime : String) : Option String :=
  match Text.trim mime with
  | "image/jpeg" | "image/jpg" => some "jpg"
  | "image/png" => some "png"
  | "image/gif" => some "gif"
  | "image/webp" => some "webp"
  | "image/svg+xml" => some "svg"
  | "image/bmp" => some "bmp"
  | "image/tiff" => some "tiff"
  | "image/x-icon" => some "ico"
  | "application/pdf" => some "pdf"
  | "application/msword" => some "doc"
  | "application/vnd.openxmlformats-officedocument.wordprocessingml.document" => some "docx"
  | "application/vnd.ms-excel" => some "xls"
  | "application/vnd.openxmlformats-officedocument.spreadsheetml.sheet" => some "xlsx"
  | "application/vnd.ms-powerpoint" => some "ppt"
  | "application/vnd.openxmlformats-officedocument.presentationml.presentation" => some "pptx"
  | "text/csv" => some "csv"
  | "application/vnd.oasis.opendocument.text" => some "odt"
  | "application/vnd.oasis.opendocument.spreadsheet" => some "ods"
  | "application/epub+zip" => some "epub"
  | "application/rtf" => some "rtf"
  | "text/plain" => some "txt"
  | "application/json" => some "json"
  | "application/xml" | "text/xml" => some "xml"
  | _ => none

inductive AssetNamingStrategy where
  | hash
  | slug
  | contentDisposition
  deriving DecidableEq, Repr

/-- The two directories are `output_dir` joined with `images_dir` and `documents_dir`, as the
directories that these denote; `sha256` is the digest of a body and `nameHash` the hash that a long
name is cut with. -/
structure AssetDownloader (Directory : Type) where
  imagesDir : Directory
  documentsDir : Directory
  assetNaming : AssetNamingStrategy
  sha256 : Bytes → Digest
  nameHash : String → UInt64

structure AssetPath (Directory : Type) where
  directory : Directory
  filename : String
  deriving DecidableEq, Repr

/-- A response with a success status, read to its end; the name is what was parsed of its
Content-Disposition header. -/
structure AssetResponse where
  mimeType : Option String
  dispositionFilename : Option String
  body : Bytes
  deriving DecidableEq, Repr

namespace AssetDownloader

variable {Directory : Type} (d : AssetDownloader Directory)

def contentHash (body : Bytes) : String := (Sha256Hex.fromDigest (d.sha256 body)).asStr

def shortHash (contentHash : String) : String := String.ofList (contentHash.toList.take 12)

def sanitizeFilename (name : String) : String :=
  (sanitizeFilenameComponent d.nameHash name).getD ""

def generateFilename (url : Url) (contentHash : String) (mimeType dispositionFilename : Option String) :
    String :=
  let extension := (mimeTypeToExtension (mimeType.getD "")).getD "bin"
  let hashed := shortHash contentHash ++ "." ++ extension
  match d.assetNaming with
  | .hash => hashed
  | .slug =>
    let name := d.sanitizeFilename (basename url.path)
    if name = "" then hashed
    else
      let slugExt := afterLastDot name
      if slugExt ≠ "" ∧ slugExt ≠ name then d.sanitizeFilename name else name ++ "." ++ extension
  | .contentDisposition =>
    match dispositionFilename with
    | none => hashed
    | some name =>
      let sanitized := d.sanitizeFilename name
      if sanitized ≠ "" then sanitized else hashed

/-- `Path::file_stem` and `Path::extension` of a single component. -/
def splitExtension (filename : String) : String × String :=
  let extension := afterLastDot filename
  let stem := filename.toList.take (filename.toList.length - extension.toList.length - 1)
  if extension = filename ∨ stem = [] ∨ filename = ".." then (filename, "")
  else (String.ofList stem, extension)

def resolveCollision (subdir : Directory) (filename contentHash : String) : AssetPath Directory :=
  let hashSuffix := String.ofList (contentHash.toList.take 8)
  let (stem, ext) := splitExtension filename
  if ext = "" then ⟨subdir, stem ++ "-" ++ hashSuffix⟩
  else ⟨subdir, stem ++ "-" ++ hashSuffix ++ "." ++ ext⟩

def subdirPath (url : Url) : Directory :=
  if detectFromPath url.path = .image then d.imagesDir else d.documentsDir

/-- The path that is tested first. -/
def plainPath (url : Url) (response : AssetResponse) : AssetPath Directory :=
  ⟨d.subdirPath url,
    d.generateFilename url (d.contentHash response.body) response.mimeType response.dispositionFilename⟩

/-- The path that is taken when the plain one is. -/
def hashedPath (url : Url) (response : AssetResponse) : AssetPath Directory :=
  resolveCollision (d.subdirPath url) (d.plainPath url response).filename (d.contentHash response.body)

end AssetDownloader

end Webfang.Assets
