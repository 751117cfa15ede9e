/-
# PageDesign.Template.BuiltIn -- the templates on offer

Eight layouts, in the order in which they are offered.
-/
import PageDesign.Template.Basic

namespace PageDesign.Template

/-! ## Pieces -/

/-- Equal space above and below, and equal space on the left and on the right. -/
def pad (vertical horizontal : Int) : Spacing := ⟨vertical, horizontal, vertical, horizontal⟩

/-- A piece of text. -/
def text (content : String) (style : TextStyle := .body) (tag : TextTag := .p) :
    Component Unit :=
  .leaf () none (.text { content, style, tag })

/-- A heading of the first level. -/
def heading1 (content : String) : Component Unit := text content .heading1 .h1

/-- A heading of the second level. -/
def heading2 (content : String) : Component Unit := text content .heading2 .h2

/-- A heading of the third level. -/
def heading3 (content : String) : Component Unit := text content .heading3 .h3

/-- An input field. -/
def input (placeholder : String) (inputType : InputType := .text) (required : Bool := false) :
    Component Unit :=
  .leaf () none (.input { placeholder, inputType, required })

/-- A button. -/
def button (label : String) (variant : ButtonVariant := .primary) (size : ButtonSize := .medium) :
    Component Unit :=
  .leaf () none (.button { label, variant, size })

/-- A container. -/
def container (layout : Layout) (gap : Int) (padding : Spacing) (children : Forest Unit) :
    Component Unit :=
  .branch () none (.container { layout, gap, padding }) children

/-- A container whose children stand below one another. -/
def column (gap : Int) (padding : Spacing) (children : Forest Unit) : Component Unit :=
  container (.flex .column false .start .start) gap padding children

/-- A container whose children stand beside one another. -/
def row (gap : Int) (padding : Spacing) (children : Forest Unit) (wrap : Bool := false) :
    Component Unit :=
  container (.flex .row wrap .start .start) gap padding children

/-! ## Layouts -/

/-- A form to sign in. -/
def loginForm : Template where
  id := "login-form"
  name := "Login Form"
  description := "A clean login form with email and password fields"
  category := .form
  components := [
    column 16 (pad 32 32) [
      heading1 "Login",
      input "Email address" .email true,
      input "Password" .password true,
      button "Sign In" .primary .large,
      text "Forgot your password?"]]
  tags := ["login", "auth", "form", "email", "password"]

/-- A form to get in touch. -/
def contactForm : Template where
  id := "contact-form"
  name := "Contact Form"
  description := "A simple contact form with name, email, and phone fields"
  category := .form
  components := [
    column 12 (pad 24 24) [
      heading2 "Contact Us",
      input "Your name" .text true,
      input "Email address" .email true,
      input "Phone number (optional)" .tel,
      button "Send Message"]]
  tags := ["contact", "form", "email", "phone"]

/-- The top of a landing page. -/
def heroSection : Template where
  id := "hero-section"
  name := "Hero Section"
  description := "A hero section with headline, subtitle, and CTA buttons"
  category := .hero
  components := [
    column 24 (pad 64 32) [
      heading1 "Build Amazing UIs",
      text "Create beautiful, reactive web applications in minutes",
      row 12 {} [
        button "Get Started" .primary .large,
        button "Learn More" .outline .large]]]
  tags := ["hero", "landing", "headline", "cta"]

/-- A card for a plan and its price. -/
def pricingCard : Template where
  id := "pricing-card"
  name := "Pricing Card"
  description := "A pricing card with plan details and features"
  category := .card
  components := [
    column 16 (pad 24 24) [
      heading2 "Pro Plan",
      text "$29/month" .heading1 .span,
      text "✓ Unlimited projects",
      text "✓ Priority support",
      text "✓ Advanced analytics",
      text "✓ Custom branding",
      button "Subscribe" .primary .large]]
  tags := ["pricing", "card", "subscription", "features"]

/-- A bar of links. -/
def navigationBar : Template where
  id := "navigation-bar"
  name := "Navigation Bar"
  description := "A horizontal navigation bar with links and CTA"
  category := .navigation
  components := [
    row 24 (pad 16 24) [
      text "Brand" .heading2 .span,
      text "Home",
      text "About",
      text "Services",
      text "Contact",
      button "Sign Up"]]
  tags := ["navbar", "navigation", "header", "menu"]

/-- A column of links under a title. -/
def footerSection (title : String) (links : List String) : Component Unit :=
  column 8 {} (text title .heading3 :: links.map fun link => text link)

/-- The end of a page. -/
def footer : Template where
  id := "footer"
  name := "Footer"
  description := "A multi-column footer with links and copyright"
  category := .footer
  components := [
    row 32 (pad 32 32) [
      footerSection "Company" ["About", "Careers", "Press"],
      footerSection "Resources" ["Documentation", "Blog", "Support"],
      text "© 2024 Your Company. All rights reserved." .caption] true]
  tags := ["footer", "links", "copyright"]

/-- The head of a dashboard, with a search and actions. -/
def dashboardHeader : Template where
  id := "dashboard-header"
  name := "Dashboard Header"
  description := "A dashboard header with search and action buttons"
  category := .dashboard
  components := [
    row 16 (pad 16 24) [
      heading1 "Dashboard",
      input "Search...",
      button "+ Add New",
      button "⚙ Settings" .ghost]]
  tags := ["dashboard", "header", "search", "actions"]

/-- A sign, a title and a line of text. -/
def feature (icon title description : String) : Component Unit :=
  column 8 (pad 16 16) [text icon .heading1, heading3 title, text description]

/-- Cards in a grid. -/
def featureGrid : Template where
  id := "feature-grid"
  name := "Feature Grid"
  description := "A 3x2 grid of feature cards with icons"
  category := .landingPage
  components := [
    container (.grid 3 2) 24 (pad 32 32) [
      feature "🚀" "Fast Performance" "Lightning-fast rendering",
      feature "🔒" "Secure" "Built-in security features",
      feature "📱" "Responsive" "Works on all devices",
      feature "⚡" "Real-time" "Live updates and sync",
      feature "🎨" "Customizable" "Easy to customize",
      feature "📊" "Analytics" "Built-in analytics"]]
  tags := ["features", "grid", "cards", "landing"]

/-! ## The library -/

/-- All templates. -/
def library : List Template :=
  [loginForm, contactForm, heroSection, pricingCard, navigationBar, footer, dashboardHeader,
    featureGrid]

/-- The template with a given identity. -/
def find? (id : String) : Option Template := library.find? (·.id == id)

/-- The templates that mention a text. -/
def search (query : String) : List Template := library.filter (·.mentions query)

/-- The templates of a category. -/
def ofCategory (category : TemplateCategory) : List Template :=
  library.filter (·.category == category)

end PageDesign.Template
