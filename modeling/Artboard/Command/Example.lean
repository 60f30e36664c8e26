/-!
# The example document

A first document to convert: a card with a title, and an instruction beside it.
-/

namespace Artboard.Example

def documentName : String := "selection.json"

def documentLines : List String := [
  "\x7b",
  "  \"selection\": [",
  "    \x7b",
  "      \"id\": \"1:1\",",
  "      \"name\": \"Card\",",
  "      \"type\": \"FRAME\",",
  "      \"width\": 320,",
  "      \"height\": 120,",
  "      \"layoutMode\": \"VERTICAL\",",
  "      \"itemSpacing\": 8,",
  "      \"paddingTop\": 16,",
  "      \"paddingRight\": 16,",
  "      \"paddingBottom\": 16,",
  "      \"paddingLeft\": 16,",
  "      \"cornerRadius\": 8,",
  "      \"fills\": [\x7b \"type\": \"SOLID\", \"color\": \x7b \"r\": 1, \"g\": 1, \"b\": 1 \x7d \x7d],",
  "      \"children\": [",
  "        \x7b",
  "          \"id\": \"1:2\",",
  "          \"name\": \"Title\",",
  "          \"type\": \"TEXT\",",
  "          \"characters\": \"Hello from Figwind\",",
  "          \"textAutoResize\": \"WIDTH_AND_HEIGHT\",",
  "          \"textSegments\": [",
  "            \x7b \"characters\": \"Hello from Figwind\", \"fontSize\": 20, \"fontWeight\": 600 \x7d",
  "          ]",
  "        \x7d,",
  "        \x7b",
  "          \"id\": \"1:3\",",
  "          \"name\": \"#prompt: make the card clickable\",",
  "          \"type\": \"RECTANGLE\"",
  "        \x7d",
  "      ]",
  "    \x7d",
  "  ],",
  "  \"variables\": \x7b\x7d",
  "\x7d"]

/-- The text of the document; each line ends with a line feed. -/
def document : String := String.join (documentLines.map (· ++ "\n"))

end Artboard.Example
