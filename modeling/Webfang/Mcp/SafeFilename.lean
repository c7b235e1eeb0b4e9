import Webfang.Domain.SanitizedNames

/-!
# Accepted file names

`require_safe_filename` of the MCP server's `validation.rs`. The sanitizer of the core leaves an
accepted name as it is, so an export goes to the file that the answer names. What the sanitizer makes
of another name passes the same checks, unless its stem is a device name with an extension behind it.
-/
namespace Webfang.Mcp

open Library Domain Filename

def maxPathLen : Nat := 1024

def maxComponentBytes : Nat := 255

def reasonEmpty : String := "empty"

def reasonTooLong : String := "too_long"

def reasonPathNotAllowed : String := "path_not_allowed"

structure InvalidParams where
  message : String
  field : String
  reason : String
  deriving DecidableEq, Repr

inductive Component where
  | rootDir
  | curDir
  | parentDir
  | normal (name : List Char)
  deriving DecidableEq, Repr

/-- `Path::components` on Unix: a dot counts at the start only. -/
def components (path : List Char) : List Component :=
  let segments := path.splitOnP (· = '/')
  let root := if path.head? = some '/' then [Component.rootDir] else []
  let dot := if segments.head? = some ['.'] then [Component.curDir] else []
  root ++ dot ++ segments.filterMap fun segment =>
    if segment = [] ∨ segment = ['.'] then none
    else if segment = ['.', '.'] then some .parentDir
    else some (.normal segment)

/-- A letter and a colon, on every host. -/
def hasWindowsDrivePrefix : List Char → Bool
  | letter :: ':' :: _ => letter.isAlpha
  | _ => false

def filenameComponentError (component : List Char) (allowDrivePrefix : Bool) : Option String :=
  let probe :=
    if allowDrivePrefix && hasWindowsDrivePrefix component then component.drop 2 else component
  if component.any Text.isControl then some "contiene caracteres de control no válidos"
  else if probe.contains ':' then
    some "no debe contener ':' (riesgo de flujos alternativos NTFS)"
  else if component.any fun c => c ∈ ['<', '>', '"', '|', '?', '*'] then
    some "contiene caracteres no permitidos en Windows: < > \" | ? *"
  else if isWindowsReserved component then
    some "usa un nombre reservado de Windows (CON, PRN, AUX, NUL, COM1-9, LPT1-9)"
  else if component.getLast? = some '.' ∨ component.getLast? = some ' ' then
    some "no debe terminar en '.' ni en espacio"
  else if maxComponentBytes < Text.utf8Len component then
    some s!"supera el límite de {maxComponentBytes} bytes por componente"
  else none

def requireSafeFilename (field value : String) : Except InvalidParams Unit :=
  let reject (message reason : String) : Except InvalidParams Unit := .error ⟨message, field, reason⟩
  if value = "" then reject "must not be empty" reasonEmpty
  else if maxPathLen < Text.utf8Len value.toList then
    reject s!"exceeds maximum length of {maxPathLen} bytes" reasonTooLong
  else if value.toList.any isSeparator then
    reject "must be a single flat filename (no '/' or '\\' separators)" reasonPathNotAllowed
  else
    match components value.toList with
    | [] => reject "must be a single filename component" reasonPathNotAllowed
    | _ :: _ :: _ =>
      reject "must not contain path separators or directory components" reasonPathNotAllowed
    | [.normal name] =>
      if name ≠ value.toList then
        reject "must be a single flat filename (no embedded separators)" reasonPathNotAllowed
      else
        match filenameComponentError value.toList false with
        | some message => reject message reasonPathNotAllowed
        | none => .ok ()
    | [_] =>
      reject "must be a single flat filename (no '.', '..', '/', or drive prefix)" reasonPathNotAllowed

/-- A name that was accepted. -/
structure SanitizedFilename where
  name : String
  safe : requireSafeFilename "filename" name = .ok ()

/-! ### What an accepted name is -/

theorem accepted_parts {field value : String} (accepted : requireSafeFilename field value = .ok ()) :
    value ≠ "" ∧ value.toList.any isSeparator = false ∧ filenameComponentError value.toList false = none := by
  rw [requireSafeFilename] at accepted
  split at accepted
  next => cases accepted
  next nonempty =>
    split at accepted
    next => cases accepted
    next =>
      split at accepted
      next => cases accepted
      next flat =>
        refine ⟨nonempty, Bool.eq_false_iff.mpr flat, ?_⟩
        split at accepted
        next => cases accepted
        next => cases accepted
        next =>
          split at accepted
          next => cases accepted
          next =>
            split at accepted
            next => cases accepted
            next passed => exact passed
        next => cases accepted

/-- What the checks of one component leave. -/
structure PlainComponent (component : List Char) : Prop where
  control : component.any Text.isControl = false
  windows : ∀ c ∈ component, c ∉ windowsInvalidComponentChars
  unreserved : isWindowsReserved component = false
  ended : component.getLast? ≠ some '.' ∧ component.getLast? ≠ some ' '
  short : Text.utf8Len component ≤ maxFilenameLen

theorem plainComponent_of_passed {component : List Char}
    (passed : filenameComponentError component false = none) : PlainComponent component := by
  rw [filenameComponentError] at passed
  simp only [Bool.false_and, Bool.false_eq_true, ↓reduceIte] at passed
  split at passed
  next => cases passed
  next control =>
    split at passed
    next => cases passed
    next colon =>
      split at passed
      next => cases passed
      next invalid =>
        split at passed
        next => cases passed
        next unreserved =>
          split at passed
          next => cases passed
          next ended =>
            split at passed
            next => cases passed
            next short =>
              refine ⟨Bool.eq_false_iff.mpr control, ?_, Bool.eq_false_iff.mpr unreserved,
                not_or.mp ended, Nat.le_of_not_lt short⟩
              -- the set of the core is the colon and the six others
              intro c member listed
              have colons : c ≠ ':' := by
                rintro rfl
                exact colon (List.contains_iff_mem.mpr member)
              have others : c ∈ ['<', '>', '"', '|', '?', '*'] := by
                simpa [windowsInvalidComponentChars, colons] using listed
              exact invalid (List.any_eq_true.mpr ⟨c, member, decide_eq_true others⟩)

theorem safeName_of_accepted {field value : String} (accepted : requireSafeFilename field value = .ok ()) :
    SafeName value.toList := by
  obtain ⟨nonempty, flat, passed⟩ := accepted_parts accepted
  have plain := plainComponent_of_passed passed
  exact {
    nonempty := fun empty => nonempty (String.toList_eq_nil_iff.mp empty)
    plain := fun c member =>
      ⟨Bool.eq_false_iff.mpr (List.any_eq_false.mp flat c member),
        Bool.eq_false_iff.mpr (List.any_eq_false.mp plain.control c member), plain.windows c member⟩
    ended := plain.ended
    unreserved := plain.unreserved
    short := plain.short }

/-- The sanitizer of the core does not change an accepted name. -/
theorem confineFilenameComponent_accepted (hash : String → UInt64) {field value : String}
    (accepted : requireSafeFilename field value = .ok ()) (fallback : String) :
    confineFilenameComponent hash value fallback = value := by
  rw [confineFilenameComponent, (safeName_of_accepted accepted).sanitized hash, Option.getD_some]

theorem SanitizedFilename.confined (hash : String → UInt64) (filename : SanitizedFilename) :
    confineFilenameComponent hash filename.name "export" = filename.name :=
  confineFilenameComponent_accepted hash filename.safe "export"

example : requireSafeFilename "filename" "report.v2" = .ok () := by decide

/-! ### What the sanitizer returns -/

/-- A safe name passes the checks of one component, with a drive prefix or without. -/
theorem filenameComponentError_of_safeName {component : List Char} (safe : SafeName component)
    (allowDrivePrefix : Bool) : filenameComponentError component allowDrivePrefix = none := by
  have control : ¬ component.any Text.isControl = true := by
    simpa using fun c member => (safe.plain c member).printed
  have colon : ':' ∉ component := fun member => (safe.plain _ member).windows (by decide)
  have probed (probe : List Char) (part : probe ⊆ component) : ¬ probe.contains ':' = true := by
    simpa using fun member => colon (part member)
  have probe : (if (allowDrivePrefix && hasWindowsDrivePrefix component) = true then component.drop 2
      else component) ⊆ component := by
    split
    next => exact List.drop_subset 2 component
    next => exact List.Subset.refl component
  have others : ¬ (component.any fun c => c ∈ ['<', '>', '"', '|', '?', '*']) = true := by
    rw [List.any_eq_true]
    rintro ⟨c, member, listed⟩
    have invalid : c ∈ windowsInvalidComponentChars := by
      simp only [windowsInvalidComponentChars, List.mem_cons] at *
      grind
    exact (safe.plain c member).windows invalid
  have ended : ¬ (component.getLast? = some '.' ∨ component.getLast? = some ' ') := not_or.mpr safe.ended
  have reserved : ¬ isWindowsReserved component = true := Bool.eq_false_iff.mp safe.unreserved
  have short : ¬ maxComponentBytes < Text.utf8Len component := Nat.not_lt.mpr safe.short
  unfold filenameComponentError
  extract_lets part
  rw [if_neg control, if_neg (probed _ probe), if_neg others, if_neg reserved, if_neg ended, if_neg short]

/-- What the doc of the sanitizer says of its result. -/
structure Creatable (hash : String → UInt64) (result : String) : Prop where
  safe : SafeName result.toList
  accepted : ∀ allowDrivePrefix, filenameComponentError result.toList allowDrivePrefix = none
  again : sanitizeFilenameComponent hash result = some result

/-- The suffix of a device name is put behind its extension, where it does not help. -/
theorem sanitized_creatable_iff (hash : String → UInt64) (name : String) :
    (∀ result, sanitizeFilenameComponent hash name = some result → Creatable hash result) ↔
      ¬ KeepsDevice name := by
  constructor
  · intro creatable device
    obtain ⟨result, sanitized⟩ := sanitized_of_keepsDevice device hash
    exact (sanitized_safeName_iff sanitized).mp (creatable result sanitized).safe device
  · intro other result sanitized
    have safe := (sanitized_safeName_iff sanitized).mpr other
    exact ⟨safe, filenameComponentError_of_safeName safe, safe.sanitized hash⟩

/-- `CON.txt` is still a device name with the suffix, is refused by the server, and gets it again. -/
theorem con_txt_kept :
    ¬ ∀ (hash : String → UInt64) (name result : String), sanitizeFilenameComponent hash name = some result →
      Creatable hash result := by
  intro all
  have kept : sanitizeFilenameComponent (fun _ => 0) "CON.txt" = some "CON.txt_safe" := by decide
  have again : sanitizeFilenameComponent (fun _ => 0) "CON.txt_safe" = some "CON.txt_safe_safe" := by
    decide
  have same := again.symm.trans (all _ _ _ kept).again
  exact absurd (Option.some.inj same) (by decide)

end Webfang.Mcp
