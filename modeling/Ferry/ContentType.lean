import Ferry.Files.Path

/-! The content type of a file, known by the extension of its name, in letters of either case. -/
namespace Ferry

open Ferry.Files

/-- The content types with their extensions, in small letters. -/
def extensionTable : List (String × List String) :=
  [("application/atom+xml", ["atom"]),
    ("application/dash+xml", ["mpd"]),
    ("application/epub+zip", ["epub"]),
    ("application/font-sfnt", ["otf"]),
    ("application/font-woff", ["woff"]),
    ("application/geo+json", ["geojson"]),
    ("application/gzip", ["gz"]),
    ("application/java-archive", ["jar"]),
    ("application/javascript", ["mjs"]),
    ("application/json", ["json"]),
    ("application/manifest+json", ["webmanifest"]),
    ("application/msword", ["doc"]),
    ("application/octet-stream",
      ["java", "bin", "exe", "so", "dmg", "iso", "psd", "dat", "cab", "deb", "msi"]),
    ("application/pdf", ["pdf"]),
    ("application/postscript", ["ai", "eps", "ps"]),
    ("application/rss+xml", ["rss"]),
    ("application/rtf", ["rtf"]),
    ("application/vnd.android.package-archive", ["apk"]),
    ("application/vnd.apache.parquet", ["parquet"]),
    ("application/vnd.ms-excel", ["xls"]),
    ("application/vnd.ms-fontobject", ["eot"]),
    ("application/vnd.ms-powerpoint", ["ppt"]),
    ("application/vnd.oasis.opendocument.spreadsheet", ["ods"]),
    ("application/vnd.oasis.opendocument.text", ["odt"]),
    ("application/vnd.openxmlformats-officedocument.presentationml.presentation", ["pptx"]),
    ("application/vnd.openxmlformats-officedocument.spreadsheetml.sheet", ["xlsx"]),
    ("application/vnd.openxmlformats-officedocument.wordprocessingml.document", ["docx"]),
    ("application/wasm", ["wasm"]),
    ("application/x-7z-compressed", ["7z"]),
    ("application/x-bzip2", ["bz2"]),
    ("application/x-compress", ["z"]),
    ("application/x-compressed", ["tgz"]),
    ("application/x-httpd-php", ["php"]),
    ("application/x-java-applet", ["class"]),
    ("application/x-mobipocket-ebook", ["mobi"]),
    ("application/x-msdownload", ["dll", "bat"]),
    ("application/x-perl", ["pl"]),
    ("application/x-pkcs12", ["p12"]),
    ("application/x-rar-compressed", ["rar"]),
    ("application/x-sh", ["sh"]),
    ("application/x-shockwave-flash", ["swf"]),
    ("application/x-sql", ["sql"]),
    ("application/x-tar", ["tar"]),
    ("application/x-tex", ["tex"]),
    ("application/x-x509-ca-cert", ["crt", "pem", "cer", "der"]),
    ("application/x-xz", ["xz"]),
    ("application/xhtml+xml", ["xhtml"]),
    ("application/zip", ["zip"]),
    ("audio/aac", ["aac"]),
    ("audio/flac", ["flac"]),
    ("audio/m4a", ["m4a"]),
    ("audio/mid", ["mid", "midi"]),
    ("audio/mpeg", ["mp3"]),
    ("audio/ogg", ["ogg", "opus"]),
    ("audio/wav", ["wav"]),
    ("audio/x-mpegurl", ["m3u8"]),
    ("audio/x-pn-realaudio-plugin", ["rpm"]),
    ("font/ttf", ["ttf"]),
    ("font/woff2", ["woff2"]),
    ("image/avif", ["avif"]),
    ("image/bmp", ["bmp"]),
    ("image/gif", ["gif"]),
    ("image/heic", ["heic"]),
    ("image/jpeg", ["jpg", "jpeg"]),
    ("image/jxl", ["jxl"]),
    ("image/png", ["png"]),
    ("image/svg+xml", ["svg", "svgz"]),
    ("image/tiff", ["tif", "tiff"]),
    ("image/webp", ["webp"]),
    ("image/x-icon", ["ico"]),
    ("text/calendar", ["ics"]),
    ("text/css", ["css"]),
    ("text/csv", ["csv"]),
    ("text/html", ["html", "htm"]),
    ("text/javascript", ["js", "jsx"]),
    ("text/less", ["less"]),
    ("text/markdown", ["md"]),
    ("text/plain", ["txt", "py", "c", "h", "cpp", "ini", "conf", "log", "cmd", "map"]),
    ("text/x-lua", ["lua"]),
    ("text/x-rust", ["rs"]),
    ("text/x-scss", ["scss"]),
    ("text/x-toml", ["toml"]),
    ("text/x-vcard", ["vcf"]),
    ("text/x-yaml", ["yaml", "yml"]),
    ("text/xml", ["xml", "xsl", "xslt", "dtd"]),
    ("video/3gpp", ["3gp"]),
    ("video/mp4", ["mp4"]),
    ("video/mpeg", ["mpeg", "mpg"]),
    ("video/quicktime", ["mov"]),
    ("video/vnd.dlna.mpeg-tts", ["ts"]),
    ("video/webm", ["webm"]),
    ("video/x-flv", ["flv"]),
    ("video/x-matroska", ["mkv"]),
    ("video/x-ms-wmv", ["wmv"]),
    ("video/x-msvideo", ["avi"])]

/-- A character as it counts where case does not: those whose letters without case are ASCII
letters. Every other character counts as itself. -/
def caseless (c : Char) : List Char :=
  match c with
  | '\u212A' => ['k']
  | '\u017F' => ['s']
  | '\u00DF' | '\u1E9E' => ['s', 's']
  | '\uFB00' => ['f', 'f']
  | '\uFB01' => ['f', 'i']
  | '\uFB02' => ['f', 'l']
  | '\uFB03' => ['f', 'f', 'i']
  | '\uFB04' => ['f', 'f', 'l']
  | '\uFB05' | '\uFB06' => ['s', 't']
  | c => [c.toLower]

/-- The content type of an extension. -/
def contentTypeOf? (extension : List Char) : Option String :=
  let wanted := String.ofList (extension.flatMap caseless)
  (extensionTable.find? fun (_, extensions) => extensions.contains wanted).map Prod.fst

/-- The content type of what a path names. A name that is no text has none. -/
def contentType? (p : Path) : Option String :=
  p.extension?.bind fun extension => (Utf8.decode? extension).bind contentTypeOf?

end Ferry
