import Localize.Json.Basic
import Localize.Table

/-!
# Supported languages

The languages the translation prompt is tuned for, with their codes, in the order of every listing.
The code of a language names its locale file.
-/

namespace Localize.Language

/-- Codes and names. -/
def supported : Table Text Text := [
  ("en", "English"), ("es", "Spanish"), ("fr", "French"), ("de", "German"), ("it", "Italian"),
  ("pt", "Portuguese"), ("ru", "Russian"), ("pl", "Polish"), ("nl", "Dutch"), ("sv", "Swedish"),
  ("da", "Danish"), ("no", "Norwegian"), ("fi", "Finnish"), ("el", "Greek"), ("cs", "Czech"),
  ("ro", "Romanian"), ("hu", "Hungarian"), ("tr", "Turkish"), ("zh", "Chinese (Simplified)"),
  ("zh-TW", "Chinese (Traditional)"), ("ja", "Japanese"), ("ko", "Korean"), ("hi", "Hindi"),
  ("th", "Thai"), ("vi", "Vietnamese"), ("id", "Indonesian"), ("ar", "Arabic"), ("he", "Hebrew"),
  ("fa", "Persian"), ("uk", "Ukrainian"), ("bn", "Bengali")].map
    fun (code, name) => (code.toList, name.toList)

def codes : List Text := supported.keys

def name? (code : Text) : Option Text := supported.find? code

def isSupported (code : Text) : Bool := supported.has code

def fileName (code : Text) : Text := code ++ ".json".toList

def codeList : Text := Text.join ", ".toList codes

end Localize.Language
