import LanguageClient.Position

namespace LanguageClient.Params

def object (fields : List (String × Json)) : Json :=
  .ofFields fields

/-- What the client tells about itself when a connection begins. -/
def abilities : Json :=
  object [
    ("general", object [("positionEncodings", .strings ["utf-16"])]),
    ("workspace", object [("configuration", .bool true), ("workspaceFolders", .bool true)]),
    ("textDocument", object [
      ("synchronization", object [
        ("dynamicRegistration", .bool false), ("willSave", .bool false),
        ("willSaveWaitUntil", .bool false), ("didSave", .bool false)]),
      ("publishDiagnostics", object [("relatedInformation", .bool false)]),
      ("hover", object [("contentFormat", .strings ["markdown", "plaintext"])]),
      ("definition", object [("linkSupport", .bool true)]),
      ("references", object []),
      ("documentSymbol", object [("hierarchicalDocumentSymbolSupport", .bool true)]),
      ("rename", object [("prepareSupport", .bool false)]),
      ("completion", object [("completionItem", object [
        ("snippetSupport", .bool false),
        ("documentationFormat", .strings ["markdown", "plaintext"])])])])]

def clientName : String := "polyglot-lsp"

def clientVersion : String := "0.0.0"

/-- The parameters of the first request on a connection. -/
def handshake (processId : Nat) (rootUri : String) : Json :=
  object [
    ("processId", .nat processId),
    ("clientInfo", object [("name", .str clientName), ("version", .str clientVersion)]),
    ("rootUri", .str rootUri),
    ("capabilities", abilities),
    ("workspaceFolders", .arr [object [("uri", .str rootUri), ("name", .str "workspace")]])]

def document (uri : String) : Json :=
  object [("textDocument", object [("uri", .str uri)])]

def opened (uri languageId : String) (version : Int32) (text : String) : Json :=
  object [("textDocument", object [
    ("uri", .str uri), ("languageId", .str languageId), ("version", .int version.toInt),
    ("text", .str text)])]

/-- The whole text anew. -/
def changed (uri : String) (version : Int32) (text : String) : Json :=
  object [
    ("textDocument", object [("uri", .str uri), ("version", .int version.toInt)]),
    ("contentChanges", .arr [object [("text", .str text)]])]

def placed (uri : String) (p : Position) (more : List (String × Json)) : Json :=
  object ([("textDocument", object [("uri", .str uri)]), ("position", p.json)] ++ more)

def position (uri : String) (p : Position) : Json :=
  placed uri p []

def references (uri : String) (p : Position) (includeDeclaration : Bool) : Json :=
  placed uri p [("context", object [("includeDeclaration", .bool includeDeclaration)])]

def rename (uri : String) (p : Position) (newName : String) : Json :=
  placed uri p [("newName", .str newName)]

def completion (uri : String) (p : Position) : Json :=
  placed uri p [("context", object [("triggerKind", .nat 1)])]

end LanguageClient.Params
