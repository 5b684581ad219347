/-!
# The documentation page

A page that shows a document in an interactive viewer.  The title and the address of the document
are inserted with their markup characters escaped.
-/

namespace RouteScribe.Docs

/-- A character inside markup. -/
def escapeChar (c : Char) : String :=
  if c = '&' then "&amp;"
  else if c = '<' then "&lt;"
  else if c = '>' then "&gt;"
  else if c = '\x22' then "&quot;"
  else if c = '\x27' then "&#x27;"
  else String.ofList [c]

/-- Text with all markup characters escaped. -/
def escapeMarkup (s : String) : String :=
  String.join (s.toList.map escapeChar)

/-- The address below which the viewer is loaded. -/
def viewerAddress : String := "https://unpkg.com/swagger-ui-dist@5/"

/-- The page with the given title for the document at the given address. -/
def page (title address : String) : String :=
  "\n".intercalate
    ["<!doctype html>",
     "<html>",
     "  <head>",
     "    <meta charset=\x22utf-8\x22 />",
     "    <title>" ++ escapeMarkup title ++ "</title>",
     "    <link rel=\x22stylesheet\x22 href=\x22" ++ viewerAddress ++ "swagger-ui.css\x22 />",
     "  </head>",
     "  <body>",
     "    <div id=\x22swagger-ui\x22></div>",
     "    <script src=\x22" ++ viewerAddress ++ "swagger-ui-bundle.js\x22></script>",
     "    <script>",
     "      window.ui = SwaggerUIBundle(\x7b url: \x22" ++ escapeMarkup address ++
       "\x22, dom_id: \x22#swagger-ui\x22 \x7d);",
     "    </script>",
     "  </body>",
     "</html>",
     ""]

end RouteScribe.Docs
