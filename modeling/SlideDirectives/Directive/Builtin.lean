import SlideDirectives.Directive.Registry

/-!
# The built-in directives

Every directive that a slide deck may set, in the order in which editors list
them.
-/

set_option autoImplicit false

namespace SlideDirectives.Builtin

def anywhere : List Context := [.frontMatter, .comment]

def globalGuide : String := "https://marpit.marp.app/directives?id=global-directives"

def localGuide : String := "https://marpit.marp.app/directives?id=local-directives"

def backgroundGuide : String := "https://marpit.marp.app/directives?id=backgrounds"

def metadataGuide : String := "https://github.com/marp-team/marp-cli#metadata"

def global (name : String) (provider : Provider) (description reference : String)
    (offersValues : Bool) : Definition :=
  ⟨name.toList, .whole, anywhere, provider, description, reference, offersValues⟩

def ofSlide (name description reference : String) (offersValues : Bool) : Definition :=
  ⟨name.toList, .slide, anywhere, .framework, description, reference, offersValues⟩

def definitions : List Definition := [
  ⟨"marp".toList, .whole, [.frontMatter], .editor,
    "Set whether or not to enable slide deck features for the Markdown document.",
    "https://github.com/marp-team/marp-vscode#usage", true⟩,
  global "theme" .framework
    "Set a theme name of the slide deck.\n\nYou can choose from built-in themes (`default`, `gaia`, `uncover`) or custom themes."
    "https://marpit.marp.app/directives?id=theme" true,
  global "style" .framework
    "Specify CSS for tweaking theme."
    "https://marpit.marp.app/theme-css?id=tweak-style-through-markdown" false,
  global "headingDivider" .framework
    "Specify heading divider option.\n\nYou may split slides by headings at the beginning of the specified level or higher."
    "https://marpit.marp.app/directives?id=heading-divider" false,
  global "lang" .framework
    "Set the value of `lang` attribute for each slide."
    globalGuide false,
  global "size" .core
    "Choose the slide size preset provided by theme.\n\nBuilt-in themes provide `16:9` and `4:3`."
    "https://github.com/marp-team/marp-core#size-global-directive" true,
  global "math" .core
    "Choose a library to render math typesetting in the current Markdown: `mathjax` or `katex`."
    "https://github.com/marp-team/marp-core#math-global-directive" true,
  global "title" .commandLine
    "Set a title of the slide deck."
    metadataGuide false,
  global "description" .commandLine
    "Set a description of the slide deck."
    metadataGuide false,
  global "author" .commandLine
    "Set an author of the slide deck."
    metadataGuide false,
  global "keywords" .commandLine
    "Set comma-separated keywords for the slide deck."
    metadataGuide false,
  global "url" .commandLine
    "Set canonical URL for the slide deck."
    metadataGuide false,
  global "image" .commandLine
    "Set Open Graph image URL."
    metadataGuide false,
  ofSlide "paginate"
    "Show page number on the slide if set `true`. `hold` and `skip` keep or skip incrementing the page number."
    "https://marpit.marp.app/directives?id=pagination" true,
  ofSlide "header"
    "Specify the content of slide header."
    "https://marpit.marp.app/directives?id=header-and-footer" false,
  ofSlide "footer"
    "Specify the content of slide footer."
    "https://marpit.marp.app/directives?id=header-and-footer" false,
  ofSlide "class"
    "Specify HTML class of the slide element."
    localGuide false,
  ofSlide "backgroundColor"
    "Set `background-color` style of the slide."
    backgroundGuide false,
  ofSlide "backgroundImage"
    "Set `background-image` style of the slide."
    backgroundGuide false,
  ofSlide "backgroundPosition"
    "Set `background-position` style of the slide."
    backgroundGuide false,
  ofSlide "backgroundRepeat"
    "Set `background-repeat` style of the slide."
    backgroundGuide false,
  ofSlide "backgroundSize"
    "Set `background-size` style of the slide."
    backgroundGuide false,
  ofSlide "color"
    "Set `color` style of the slide."
    localGuide false]

end SlideDirectives.Builtin

namespace SlideDirectives

def Registry.builtin : Registry := ⟨Builtin.definitions⟩

end SlideDirectives
