import RepoAtlas.Path
import RepoAtlas.Text.Case

/-!
# Languages by file name

The language of a file is told by its name: by a suffix of it that begins with a
dot. A suffix of several parts, such as `.tfstate.backup`, goes before a shorter
one, and a name that is all suffix, such as `.gitignore`, counts as well. Letters
of either case are the same.

* `ofExtension?`: the language of an extension, with or without its dot;
* `ofName?`: the language of a file name;
* `ofPath?`: the language that the last name of a path tells.
-/

namespace RepoAtlas.Language

/-- The suffixes in small letters, each with its language. -/
def suffixes : List (String × String) := [
  (".py", "Python"), (".java", "Java"), (".js", "JavaScript"), (".jsx", "JavaScript"),
  (".ts", "TypeScript"), (".tsx", "TypeScript"), (".cpp", "C++"), (".hpp", "C++"), (".h", "C++"),
  (".cs", "C#"), (".rb", "Ruby"), (".go", "Go"), (".php", "PHP"), (".txt", "Text"),
  (".md", "Markdown"), (".sh", "Shell"), (".yml", "YAML"), (".yaml", "YAML"), (".json", "JSON"),
  (".html", "HTML"), (".css", "CSS"), (".scss", "SCSS"), (".less", "LESS"), (".sql", "SQL"),
  (".r", "R"), (".kt", "Kotlin"), (".swift", "Swift"), (".pl", "Perl"), (".asm", "Assembly"),
  (".clj", "Clojure"), (".groovy", "Groovy"), (".lua", "Lua"), (".pas", "Pascal"),
  (".scala", "Scala"), (".tsv", "TSV"), (".csv", "CSV"), (".xml", "XML"), (".ini", "INI"),
  (".cfg", "Config"), (".conf", "Config"), (".env", "Config"), (".envrc", "Config"),
  (".tf", "Terraform"), (".tfvars", "Terraform"), (".tfstate", "Terraform"),
  (".tfstate.backup", "Terraform"), (".hcl", "Terraform"), (".dockerfile", "Docker"),
  (".tfignore", "Terraform"), (".gitignore", "Git"), (".gitattributes", "Git"),
  (".db", "Database"), (".sqlite", "Database"), (".db3", "Database"), (".dbf", "Database"),
  (".dbx", "Database"), (".mdb", "Database"), (".accdb", "Database"), (".frm", "Database"),
  (".sqlitedb", "Database"), (".png", "Image"), (".jpg", "Image"), (".jpeg", "Image"),
  (".gif", "Image"), (".svg", "Image"), (".bmp", "Image"), (".ico", "Image"), (".tif", "Image"),
  (".tiff", "Image"), (".webp", "Image"), (".heic", "Image"), (".heif", "Image"),
  (".pdf", "PDF"), (".doc", "Document"), (".docx", "Document"),
  (".ppt", "PowerPointPresentation"), (".wav", "Audio"), (".mp3", "Audio"), (".mp4", "Video"),
  (".mov", "Video"), (".avi", "Video"), (".mkv", "Video"), (".webm", "Video"), (".flv", "Video"),
  (".wmv", "Video"), (".m4a", "Audio"), (".flac", "Audio"), (".ogg", "Audio"),
  (".opus", "Audio"), (".wma", "Audio"), (".aac", "Audio"), (".aiff", "Audio"),
  (".ape", "Audio"), (".alac", "Audio")]

/-- The language of a suffix in small letters. -/
def ofSuffix? (suffix : String) : Option String := suffixes.lookup suffix

/-- The language of an extension, with or without its dot. -/
def ofExtension? (extension : String) : Option String :=
  let small := Text.lowerAscii extension
  ofSuffix? (if small.toList.head? = some '.' then small else "." ++ small)

/-- The suffixes of a name that begin with a dot, the longest first. -/
def dottedSuffixes : List Char → List (List Char)
  | [] => []
  | c :: rest => if c = '.' then (c :: rest) :: dottedSuffixes rest else dottedSuffixes rest

/-- The language of a file name: that of its longest known suffix. -/
def ofName? (name : String) : Option String :=
  (dottedSuffixes (Text.lowerAscii name).toList).findSome? fun s => ofSuffix? (String.ofList s)

/-- The language that the last name of a path tells. A name that is no text tells
    none. -/
def ofPath? (path : Bytes) : Option String :=
  ((Path.fileName? path).bind Utf8.decode?).bind ofName?

end RepoAtlas.Language
