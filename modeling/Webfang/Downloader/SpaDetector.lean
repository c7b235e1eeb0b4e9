import Webfang.Waf.ChallengeDetection

/-!
# SPA detection

`infrastructure/downloader/spa_detector.rs`: is a page static content, a JavaScript shell or
a WAF challenge? The HTML parser is a parameter: it gives the text nodes of a document with
the elements around each.
-/
namespace Webfang.Downloader

open Library

inductive SpaReason where
  | mountPoint (description : String)
  | insufficientText (contentChars : Nat)
  | boilerplateOnlyText (totalChars contentChars : Nat)
  deriving DecidableEq, Repr

inductive SpaSignal where
  | staticContent
  | spaDetected (reason : SpaReason)
  | wafBlocked
  deriving DecidableEq, Repr

def minVisibleChars : Nat := 50

def spaMarkers : List (String × String) := [
  ("id=\"root\"", "React #root"),
  ("id=\"app\"", "Vue/React #app"),
  ("__NEXT_DATA__", "Next.js"),
  ("__NUXT__", "Nuxt.js"),
  ("id=\"app\"", "Vue #app"),
  ("<app-root>", "Angular app-root"),
  ("__REMIX_DATA__", "Remix")]

def invisibleTextTags : List String := ["script", "style", "noscript", "template"]

def boilerplateTags : List String := ["nav", "header", "footer", "aside"]

def anchorTag : String := "a"

/-- A text node, with the names of the elements it lies in. -/
structure TextNode where
  ancestors : List String
  text : String
  deriving DecidableEq, Repr

structure VisibleTextCount where
  charsTotal : Nat
  charsContent : Nat
  deriving DecidableEq, Repr

/-- What the detector is built on: the HTML parser and the arithmetic of the inspector. -/
structure SpaDetector where
  parseDocument : String → List TextNode
  floats : Waf.Floats

namespace SpaDetector

variable (detector : SpaDetector)

def countNode (count : VisibleTextCount) (node : TextNode) : VisibleTextCount :=
  let invisible := node.ancestors.any fun name => invisibleTextTags.contains name
  let boilerplate := node.ancestors.any fun name =>
    !invisibleTextTags.contains name && (boilerplateTags.contains name || name == anchorTag)
  if invisible then count
  else
    let n := (node.text.toList.filter fun c => !Text.isWhitespace c).length
    ⟨count.charsTotal + n, if boilerplate then count.charsContent else count.charsContent + n⟩

def countVisibleText (html : String) : VisibleTextCount :=
  (detector.parseDocument html).foldl countNode ⟨0, 0⟩

def detectSpa (html : String) (ignoreWaf : Bool) : SpaSignal :=
  let ctx := { Waf.InspectionContext.default with ignoreWaf := ignoreWaf }
  if (Waf.inspect detector.floats (Waf.bytes html) ctx).isBlocked then .wafBlocked
  else
    let text := detector.countVisibleText html
    if minVisibleChars ≤ text.charsContent then .staticContent
    else
      match spaMarkers.find? fun (marker, _) => Text.contains html marker with
      | some (_, description) => .spaDetected (.mountPoint description)
      | none =>
        if minVisibleChars ≤ text.charsTotal then
          .spaDetected (.boilerplateOnlyText text.charsTotal text.charsContent)
        else .spaDetected (.insufficientText text.charsContent)

variable {detector} {html : String}

/-- The other signals come after the verdict, and none of them is a challenge. -/
theorem detectSpa_wafBlocked {ignoreWaf : Bool} : detector.detectSpa html ignoreWaf = .wafBlocked ↔
    (Waf.inspect detector.floats (Waf.bytes html)
      { Waf.InspectionContext.default with ignoreWaf := ignoreWaf }).isBlocked = true := by
  simp only [detectSpa]
  split
  next blocked => exact iff_of_true rfl blocked
  next clean =>
    refine iff_of_false ?_ clean
    split
    · exact nofun
    · split
      · exact nofun
      · split <;> exact nofun

/-- An empty page carries no signature and no script. -/
theorem detectSpa_empty {ignoreWaf : Bool} : detector.detectSpa "" ignoreWaf ≠ .wafBlocked := by
  rw [ne_eq, detectSpa_wafBlocked]
  cases ignoreWaf with
  | true => exact nofun
  | false =>
    intro blocked
    rcases Waf.isBlocked_default blocked with ⟨found, member, -⟩ | ⟨high, -⟩
    · have silent : Waf.findIter (Waf.bytes "") = [] := by decide +kernel
      rw [silent] at member
      cases member
    · have short : (Waf.bytes "").length = 0 := by decide +kernel
      simp [Waf.Floats.highEntropy, short] at high

theorem detectSpa_blank {ignoreWaf : Bool} (noText : detector.parseDocument "" = []) :
    detector.detectSpa "" ignoreWaf = .spaDetected (.insufficientText 0) := by
  have clean : ¬ (Waf.inspect detector.floats (Waf.bytes "")
      { Waf.InspectionContext.default with ignoreWaf := ignoreWaf }).isBlocked = true :=
    mt detectSpa_wafBlocked.mpr detectSpa_empty
  have count : detector.countVisibleText "" = ⟨0, 0⟩ := by rw [countVisibleText, noText]; rfl
  have unmarked : spaMarkers.find? (fun (marker, _) => Text.contains "" marker) = none := by
    decide
  simp only [detectSpa, count]
  rw [if_neg clean, if_neg (by decide), unmarked]
  rfl

end SpaDetector

end Webfang.Downloader
